import SignalGraph.Proofs.Engine.Bookkeeping
import SignalGraph.Proofs.Engine.Effects
import SignalGraph.Proofs.Engine.Sparing
import SignalGraph.Proofs.Timer.Excerpt

/-!
# A graph in company and alone

Two worlds are tied (`World.Tied`) if the timers of one graph wait in both and, in the second one,
no others do: its timeline is an excerpt of the first one. What the nodes of that graph do in both
worlds at the same time leaves them tied, and the host is called in the same way
(`World.coupling_lockstep`). What the nodes of another graph do in the first world leaves them tied,
too (`World.keeps_tied`).
-/

namespace SignalGraph

namespace World

/-! ### Timers on the clock -/

section Shared

variable {H : Type} {w : World H}

theorem timeline_shared (h : w.service = .shared) : w.timeline = w.clock := by
  rw [timeline, h]

theorem withTimeline_shared (h : w.service = .shared) (t : Timeline Fire) :
    w.withTimeline t = { w with clock := t } := by
  rw [withTimeline, h]

theorem cancelTimer_shared (h : w.service = .shared) {timer : ArmedTimer} {ticket : Ticket}
    (hticket : timer.ticket = some ticket) :
    w.cancelTimer timer = { w with clock := w.clock.cancel ticket } := by
  rw [cancelTimer, hticket, ← timeline_shared h, ← withTimeline_shared h]

theorem elapsed_cancelTimer (w : World H) (timer : ArmedTimer) :
    (w.cancelTimer timer).clock.elapsed = w.clock.elapsed := by
  unfold cancelTimer withTimeline timeline
  cases timer.ticket with
  | none => rfl
  | some ticket => cases w.service <;> rfl

theorem book_shared (h : w.service = .shared) (generation : Nat) (graph node : String)
    (key : TimerKey) (delay : Nat) :
    w.book generation graph node key delay =
      (⟨⟨generation, graph, node, key, w.nextToken⟩,
          some (w.clock.schedule delay (⟨generation, graph, node, key, w.nextToken⟩ : Fire)).2⟩,
        { w with
          nextToken := w.nextToken + 1
          clock := (w.clock.schedule delay ⟨generation, graph, node, key, w.nextToken⟩).1 }) := by
  obtain ⟨host, clock, service, nextToken, registered, queue⟩ := w
  obtain rfl : service = .shared := h
  rfl

end Shared

/-! ### Tied worlds -/

/-- Whether a timer belongs to the graph with this id. -/
def ofGraph (graph : String) (fire : Fire) : Bool :=
  fire.graph == graph

/-- The timers of the graph with this id wait in both worlds, paired off by `pairs`, and in the
first one those of `others` do, too. The hosts know the same scenes and refuse the same writes. -/
structure Tied (graph : String) (w w' : World (Logged MemoryHost)) (pairs : List (Arming × Arming))
    (others : List Arming) : Prop where
  service_eq : w.service = .shared
  service_eq' : w'.service = .shared
  queue_eq : w.queue = []
  queue_eq' : w'.queue = []
  devices_eq : w'.host.host.devices = w.host.host.devices
  readOnly_eq : w'.host.host.readOnly = w.host.host.readOnly
  balanced : w.Balanced (pairs.map Prod.fst ++ others)
  foreign : ∀ a ∈ others, a.fire.graph ≠ graph
  excerpt : ∃ ties, Timeline.Excerpt (ofGraph graph) w.clock w'.clock ties ∧
    (ties.map (Prod.map Arming.ofEntry Arming.ofEntry)).Perm pairs

namespace Tied

variable {graph : String} {w w' : World (Logged MemoryHost)} {pairs pairs' : List (Arming × Arming)}
  {others others' : List Arming}

theorem perm (h : Tied graph w w' pairs others) (hpairs : pairs.Perm pairs')
    (hothers : others.Perm others') : Tied graph w w' pairs' others' := by
  obtain ⟨ties, hexcerpt, hties⟩ := h.excerpt
  exact
    { h with
      balanced :=
        (ledger_balanced _).perm ((hpairs.map _).append hothers) h.balanced
      foreign := fun a ha => h.foreign a (hothers.symm.subset ha)
      excerpt := ⟨ties, hexcerpt, hties.trans hpairs⟩ }

/-- The hosts are called, and signals are registered. -/
theorem calls (h : Tied graph w w' pairs others) {host host' : Logged MemoryHost}
    (registered registered' : List String)
    (hdevices : host'.host.devices = host.host.devices)
    (hreadOnly : host'.host.readOnly = host.host.readOnly) :
    Tied graph { w with host := host, registered := registered }
      { w' with host := host', registered := registered' } pairs others := by
  have hquiet : w.Quiet { w with host := host, registered := registered } :=
    ⟨rfl, rfl, rfl, [], (List.append_nil _).symm⟩
  exact
    { h with
      devices_eq := hdevices
      readOnly_eq := hreadOnly
      balanced := h.balanced.quiet hquiet }

/-- Two timers that are paired off are cancelled. -/
theorem cancel {fire fire' : Fire} {timer timer' : ArmedTimer}
    (h : Tied graph w w' ((⟨fire, timer.ticket⟩, ⟨fire', timer'.ticket⟩) :: pairs) others) :
    Tied graph (w.cancelTimer timer) (w'.cancelTimer timer') pairs others := by
  have hbalanced := h.balanced.cancel timer
  obtain ⟨ties, hexcerpt, hties⟩ := h.excerpt
  obtain ⟨x, rest, hx, hperm, hrest⟩ := exists_perm_cons_of_map hties
  have hticket : timer.ticket = some x.1.1 :=
    (congrArg (fun p : Arming × Arming => p.1.ticket) hx).symm
  have hticket' : timer'.ticket = some x.2.1 :=
    (congrArg (fun p : Arming × Arming => p.2.ticket) hx).symm
  obtain ⟨ties', hexcerpt', hties'⟩ := hexcerpt.cancel hperm
  rw [cancelTimer_shared h.service_eq hticket] at hbalanced ⊢
  rw [cancelTimer_shared h.service_eq' hticket']
  exact
    { h with
      balanced := hbalanced
      excerpt := ⟨ties', hexcerpt', (hties'.map _).trans hrest⟩ }

/-- A timer of another graph is cancelled. -/
theorem cancel_other {fire : Fire} {timer : ArmedTimer}
    (h : Tied graph w w' pairs (⟨fire, timer.ticket⟩ :: others)) :
    Tied graph (w.cancelTimer timer) w' pairs others := by
  have hfirst : w.Balanced (⟨fire, timer.ticket⟩ :: (pairs.map Prod.fst ++ others)) :=
    (ledger_balanced _).perm List.perm_middle h.balanced
  have hlive : w.service ≠ .inert := h.service_eq ▸ TimerService.noConfusion
  obtain ⟨entry, rest, hentry, hpending, -⟩ := hfirst.exists_entry hlive
  have hticket : timer.ticket = some entry.1 := (congrArg Arming.ticket hentry).symm
  have hfire : entry.2 = fire := congrArg Arming.fire hentry
  have hbalanced := hfirst.cancel timer
  obtain ⟨ties, hexcerpt, hties⟩ := h.excerpt
  rw [timeline_shared h.service_eq] at hpending
  rw [cancelTimer_shared h.service_eq hticket] at hbalanced ⊢
  refine
    { h with
      balanced := hbalanced
      foreign := fun a ha => h.foreign a (List.mem_cons_of_mem _ ha)
      excerpt := ⟨ties, hexcerpt.cancel_other (hpending.symm.subset List.mem_cons_self) ?_, hties⟩ }
  rw [ofGraph, beq_iff_eq, hfire]
  exact h.foreign _ List.mem_cons_self

/-- The graph schedules a timer in both worlds at the same time. -/
theorem book (h : Tied graph w w' pairs others) (helapsed : w'.clock.elapsed = w.clock.elapsed)
    (generation generation' : Nat) (node : String) (key : TimerKey) (delay : Nat) :
    Tied graph (w.book generation graph node key delay).2
      (w'.book generation' graph node key delay).2
      (((w.book generation graph node key delay).1, (w'.book generation' graph node key delay).1) ::
        pairs) others := by
  have hbalanced : (w.book generation graph node key delay).2.Balanced
      ((w.book generation graph node key delay).1 :: (pairs.map Prod.fst ++ others)) :=
    (ledger_balanced _).schedule ⟨generation, graph, node, key, w.nextToken⟩ delay rfl h.balanced
  obtain ⟨ties, hexcerpt, hties⟩ := h.excerpt
  obtain ⟨ties', hexcerpt', hties'⟩ := hexcerpt.schedule helapsed delay
    ⟨generation, graph, node, key, w.nextToken⟩ ⟨generation', graph, node, key, w'.nextToken⟩
    (beq_self_eq_true graph)
  rw [book_shared h.service_eq] at hbalanced ⊢
  rw [book_shared h.service_eq']
  exact
    { h with
      balanced := hbalanced
      excerpt := ⟨ties', hexcerpt', (hties'.map _).trans (hties.cons _)⟩ }

/-- Another graph schedules a timer. -/
theorem book_other {other : String} (h : Tied graph w w' pairs others) (hother : other ≠ graph)
    (generation : Nat) (node : String) (key : TimerKey) (delay : Nat) :
    Tied graph (w.book generation other node key delay).2 w' pairs
      ((w.book generation other node key delay).1 :: others) := by
  have hbalanced : (w.book generation other node key delay).2.Balanced
      ((w.book generation other node key delay).1 :: (pairs.map Prod.fst ++ others)) :=
    (ledger_balanced _).schedule ⟨generation, other, node, key, w.nextToken⟩ delay rfl h.balanced
  obtain ⟨ties, hexcerpt, hties⟩ := h.excerpt
  rw [book_shared h.service_eq] at hbalanced ⊢
  refine
    { h with
      balanced := (ledger_balanced _).perm List.perm_middle.symm hbalanced
      foreign := fun a ha => ?_
      excerpt := ⟨ties, hexcerpt.schedule_other delay ?_, hties⟩ }
  · rcases List.mem_cons.1 ha with rfl | ha
    · exact hother
    · exact h.foreign a ha
  · rw [ofGraph, beq_iff_eq]
    exact hother

theorem graph_eq (h : Tied graph w w' pairs others) {p : Arming × Arming} (hp : p ∈ pairs) :
    p.1.fire.graph = graph := by
  obtain ⟨ties, hexcerpt, hties⟩ := h.excerpt
  obtain ⟨x, hx, rfl⟩ := List.mem_map.1 (hties.symm.subset hp)
  exact beq_iff_eq.1 (hexcerpt.mem_pending hx).2

/-- What falls due in the first world is one of the armed timers, and the rest stay in balance. -/
theorem popped {target : Nat} {fire : Fire} {t : Timeline Fire} {ticket : Ticket}
    {rest : List Arming} (h : Tied graph w w' pairs others)
    (hpop : w.clock.popDue? target = some (fire, t))
    (hpending : w.clock.pending = (ticket, fire) :: t.pending)
    (hperm : (pairs.map Prod.fst ++ others).Perm (⟨fire, some ticket⟩ :: rest)) :
    World.Balanced { w with clock := t } rest := by
  have hordered := h.balanced.ordered
  have hwaiting := h.balanced.perm (h.service_eq ▸ TimerService.noConfusion)
  rw [timeline_shared h.service_eq] at hordered hwaiting
  rw [hpending] at hwaiting
  rw [← withTimeline_shared h.service_eq]
  exact Balanced.withTimeline h.balanced.changes (hordered.popDue hpop) fun _ =>
    (hwaiting.trans hperm).cons_inv

/-- A timer of the graph falls due: it falls due in both worlds. -/
theorem fallDue {target : Nat} {fire : Fire} {t : Timeline Fire} (h : Tied graph w w' pairs others)
    (hpop : w.clock.popDue? target = some (fire, t)) (hown : fire.graph = graph) :
    ∃ ticket fire' ticket' t' rest,
      pairs.Perm ((⟨fire, some ticket⟩, ⟨fire', some ticket'⟩) :: rest) ∧
      w'.clock.popDue? target = some (fire', t') ∧
      Tied graph { w with clock := t } { w' with clock := t' } rest others ∧
      t'.elapsed = t.elapsed ∧ t.elapsed ≤ target := by
  obtain ⟨ties, hexcerpt, hties⟩ := h.excerpt
  obtain ⟨ticket, hpending, -⟩ := hexcerpt.popDue?_cases hpop
  obtain ⟨ticket₁, ticket', fire', t', rest, rfl, hpop', hexcerpt', helapsed, hle⟩ :=
    hexcerpt.popDue (beq_iff_eq.2 hown) hpop
  obtain rfl : ticket₁ = ticket := by
    have hmem := hexcerpt.own_eq
    rw [hpending, List.filter_cons, if_pos (show ofGraph graph fire = true from beq_iff_eq.2 hown)]
      at hmem
    exact (congrArg Prod.fst (List.cons.inj hmem).1).symm
  refine ⟨ticket₁, fire', ticket', t', _, hties.symm, hpop', ?_, helapsed, hle⟩
  exact
    { h with
      balanced := h.popped hpop hpending ((hties.symm.map Prod.fst).append_right others)
      excerpt := ⟨rest, hexcerpt', .refl _⟩ }

/-- A timer of another graph falls due in the first world. -/
theorem fallDue_other {target : Nat} {fire : Fire} {t : Timeline Fire}
    (h : Tied graph w w' pairs others) (hpop : w.clock.popDue? target = some (fire, t))
    (hother : fire.graph ≠ graph) :
    ∃ ticket rest, others.Perm (⟨fire, some ticket⟩ :: rest) ∧
      Tied graph { w with clock := t } w' pairs rest ∧ t.elapsed ≤ target := by
  obtain ⟨ties, hexcerpt, hties⟩ := h.excerpt
  obtain ⟨ticket, hpending, -⟩ := hexcerpt.popDue?_cases hpop
  obtain ⟨hexcerpt', hle⟩ :=
    hexcerpt.popDue_other (fun hown => hother (beq_iff_eq.1 hown)) hpop
  -- the timer is armed, and not by the graph
  have hmem : (⟨fire, some ticket⟩ : Arming) ∈ others := by
    have hwaiting := h.balanced.perm (h.service_eq ▸ TimerService.noConfusion)
    rw [timeline_shared h.service_eq, hpending] at hwaiting
    rcases List.mem_append.1 (hwaiting.subset List.mem_cons_self) with hown | hmem
    · obtain ⟨p, hp, heq⟩ := List.mem_map.1 hown
      have hgraph := h.graph_eq hp
      rw [heq] at hgraph
      exact (hother hgraph).elim
    · exact hmem
  obtain ⟨before, after, rfl⟩ := List.append_of_mem hmem
  refine ⟨ticket, before ++ after, List.perm_middle, ?_, hle⟩
  refine
    { h with
      balanced := h.popped hpop hpending ?_
      foreign := fun a ha => h.foreign a (List.perm_middle.symm.subset (List.mem_cons_of_mem _ ha))
      excerpt := ⟨ties, hexcerpt', hties⟩ }
  exact (List.perm_middle.append_left _).trans List.perm_middle

/-- Time passes, and no timer falls due. -/
theorem withClocks {t t' : Timeline Fire} {ties : Timeline.Ties Fire}
    (h : Tied graph w w' pairs others) (hpending : t.pending = w.clock.pending)
    (hexcerpt : Timeline.Excerpt (ofGraph graph) t t' ties)
    (hties : (ties.map (Prod.map Arming.ofEntry Arming.ofEntry)).Perm pairs) :
    Tied graph { w with clock := t } { w' with clock := t' } pairs others := by
  have hbalanced : World.Balanced { w with clock := t } (pairs.map Prod.fst ++ others) := by
    have hwaiting := h.balanced.perm
    rw [timeline_shared h.service_eq, ← hpending] at hwaiting
    rw [← withTimeline_shared h.service_eq]
    exact Balanced.withTimeline h.balanced.changes hexcerpt.ordered hwaiting
  exact { h with balanced := hbalanced, excerpt := ⟨ties, hexcerpt, hties⟩ }

/-- When no timer is due any more, none is due in the second world, and both reach the same time. -/
theorem reach {target : Nat} (h : Tied graph w w' pairs others)
    (hnone : w.clock.popDue? target = none) (hle : w.clock.elapsed ≤ target) :
    w'.clock.popDue? target = none ∧
      Tied graph { w with clock := w.clock.reach target } { w' with clock := w'.clock.reach target }
        pairs others ∧
      (w'.clock.reach target).elapsed = (w.clock.reach target).elapsed := by
  obtain ⟨ties, hexcerpt, hties⟩ := h.excerpt
  obtain ⟨hnone', hexcerpt', helapsed⟩ := hexcerpt.reach hnone hle
  exact ⟨hnone', h.withClocks rfl hexcerpt' hties, helapsed⟩

theorem shiftLocal (h : Tied graph w w' pairs others) (millis : Int) :
    Tied graph { w with clock := w.clock.shiftLocal millis }
      { w' with clock := w'.clock.shiftLocal millis } pairs others := by
  obtain ⟨ties, hexcerpt, hties⟩ := h.excerpt
  exact h.withClocks rfl (hexcerpt.shiftLocal millis) hties

end Tied

/-! ### Both worlds at once -/

/-- Two worlds in which one graph does the same at the same time: they are tied, have the same
values of certain signals, and their hosts have logged the same calls since `log` and `log'`. -/
structure Lockstep (graph : String) (signals : String → Prop) (others : List Arming) (elapsed : Nat)
    (log log' : List HostEntry) (w w' : World (Logged MemoryHost))
    (pairs : List (Arming × Arming)) : Prop where
  tied : Tied graph w w' pairs others
  elapsed_eq : w.clock.elapsed = elapsed
  elapsed_eq' : w'.clock.elapsed = elapsed
  value?_eq : ∀ signal, signals signal → w'.host.host.value? signal = w.host.host.value? signal
  exists_entries : ∃ entries, w.host.log = log ++ entries ∧ w'.host.log = log' ++ entries

/-- At first, no calls have been logged. -/
theorem Tied.lockstep {graph : String} {signals : String → Prop} {others : List Arming}
    {w w' : World (Logged MemoryHost)} {pairs : List (Arming × Arming)}
    (h : Tied graph w w' pairs others) (helapsed : w'.clock.elapsed = w.clock.elapsed)
    (hvalues : ∀ signal, signals signal → w'.host.host.value? signal = w.host.host.value? signal) :
    Lockstep graph signals others w.clock.elapsed w.host.log w'.host.log w w' pairs :=
  ⟨h, rfl, helapsed, hvalues, [], (List.append_nil _).symm, (List.append_nil _).symm⟩

theorem exists_entries_append {log log' l l' : List HostEntry} (entry : HostEntry)
    (h : ∃ entries, l = log ++ entries ∧ l' = log' ++ entries) :
    ∃ entries, l ++ [entry] = log ++ entries ∧ l' ++ [entry] = log' ++ entries := by
  obtain ⟨entries, rfl, rfl⟩ := h
  exact ⟨entries ++ [entry], List.append_assoc _ _ _, List.append_assoc _ _ _⟩

/-- What the nodes of a graph do in both worlds keeps them in lockstep. -/
theorem coupling_lockstep (ctx : LoadContext) (graph : String) (signals : String → Prop)
    (others : List Arming) (elapsed : Nat) (log log' : List HostEntry) :
    Coupling ctx ctx graph (Lockstep graph signals others elapsed log log') where
  settings_eq := rfl
  scenes_eq := rfl
  perm hl h := { h with tied := h.tied.perm hl (.refl _) }
  reading {w w' l} h := by
    obtain ⟨ties, hexcerpt, -⟩ := h.tied.excerpt
    unfold World.reading Timeline.localNow Timeline.absoluteNow
    rw [hexcerpt.start_eq, hexcerpt.localShift_eq, h.elapsed_eq, h.elapsed_eq']
  write {w w' l} signal value ack h := by
    have hreadOnly := h.tied.readOnly_eq
    rw [write_inMemory, write_inMemory, hreadOnly]
    refine ⟨h.tied.calls _ _ ?_ ?_, h.elapsed_eq, h.elapsed_eq', fun other hother => ?_,
      exists_entries_append _ h.exists_entries⟩
    · split
      · exact h.tied.devices_eq
      · exact h.tied.devices_eq
    · split
      · exact hreadOnly
      · exact hreadOnly
    · -- both hosts take the value or refuse it
      have hvalue := h.value?_eq other hother
      dsimp only
      split
      · exact hvalue
      · show Dictionary.find? other (w'.host.host.values.insert signal value) =
          Dictionary.find? other (w.host.host.values.insert signal value)
        rw [Dictionary.find?_insert, Dictionary.find?_insert]
        split
        · rfl
        · exact hvalue
  resolve {w w' l} scene h := by
    have hanswer : w'.host.host.resolve? scene = w.host.host.resolve? scene := by
      rw [MemoryHost.resolve?, h.tied.devices_eq, MemoryHost.resolve?]
    rw [resolve_inMemory, resolve_inMemory, hanswer]
    exact ⟨rfl, h.tied.calls _ _ h.tied.devices_eq h.tied.readOnly_eq, h.elapsed_eq, h.elapsed_eq',
      h.value?_eq, exists_entries_append _ h.exists_entries⟩
  cancel {w w' l} fire fire' timer timer' h := by
    refine ⟨h.tied.cancel, ?_, ?_, ?_, ?_⟩
    · rw [elapsed_cancelTimer]
      exact h.elapsed_eq
    · rw [elapsed_cancelTimer]
      exact h.elapsed_eq'
    · rw [host_cancelTimer, host_cancelTimer]
      exact h.value?_eq
    · rw [host_cancelTimer, host_cancelTimer]
      exact h.exists_entries
  book {w w' l} node key delay h := by
    have helapsed : w'.clock.elapsed = w.clock.elapsed := h.elapsed_eq'.trans h.elapsed_eq.symm
    refine ⟨h.tied.book helapsed _ _ node key delay, ?_, ?_, ?_, ?_⟩
    · rw [book_shared h.tied.service_eq]
      exact h.elapsed_eq
    · rw [book_shared h.tied.service_eq']
      exact h.elapsed_eq'
    all_goals rw [book_shared h.tied.service_eq, book_shared h.tied.service_eq']
    · exact h.value?_eq
    · exact h.exists_entries

/-- What the nodes of another graph do in the first world keeps it tied to the second one. -/
theorem keeps_tied {graph other : String} (hother : other ≠ graph) (ctx : LoadContext)
    (w' : World (Logged MemoryHost)) (pairs : List (Arming × Arming)) (rest : List Arming)
    (elapsed : Nat) :
    Keeps ctx other fun (w : World (Logged MemoryHost)) l =>
      Tied graph w w' pairs (l ++ rest) ∧ w.clock.elapsed = elapsed where
  perm hl h := ⟨h.1.perm (.refl _) (hl.append_right rest), h.2⟩
  write {w l} signal value ack h := by
    rw [write_inMemory]
    refine ⟨h.1.calls _ _ ?_ ?_, h.2⟩
    · split
      · exact h.1.devices_eq
      · exact h.1.devices_eq
    · split
      · exact h.1.readOnly_eq
      · exact h.1.readOnly_eq
  resolve {w l} scene h := by
    rw [resolve_inMemory]
    exact ⟨h.1.calls _ _ h.1.devices_eq h.1.readOnly_eq, h.2⟩
  cancel fire timer h := by
    refine ⟨h.1.cancel_other, ?_⟩
    rw [elapsed_cancelTimer]
    exact h.2
  book {w l} node key delay h := by
    refine ⟨h.1.book_other hother ctx.generation node key delay, ?_⟩
    rw [book_shared h.1.service_eq]
    exact h.2

end World

end SignalGraph
