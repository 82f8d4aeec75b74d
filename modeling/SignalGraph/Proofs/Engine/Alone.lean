import SignalGraph.Proofs.Engine.Beside

/-!
# Graphs do not interfere

On a host in memory, a graph that stands apart in its configuration does what it does when it is
loaded alone (`Engine.AtRest.undisturbed`).
-/

namespace SignalGraph

/-! ### Registered signals -/

namespace Engine

variable {H : Type} [Host H] {e e' : Engine (Logged H)}

/-- The registered signals are those of the subscriber table. -/
def Registers {H : Type} (e : Engine H) : Prop :=
  ∀ signal, signal ∈ e.world.registered ↔ signal ∈ e.subscribers.keys

theorem Registers.turn? (h : e.Registers) (hturn : e.turn? = some e') : e'.Registers := by
  obtain ⟨event, rest, -, rfl⟩ := turn?_eq_some hturn
  obtain ⟨entries, heffects, hlogs⟩ := (e.withQueue rest).effects_handle event
  intro signal
  rw [subscribers_handle, hlogs.registered_eq, registeredAfter_effects heffects]
  exact h signal

theorem Registers.settle {limit : Nat} (h : e.Registers) (hsettle : settle limit e = some e') :
    e'.Registers :=
  (settle_induct (fun hturn h => Registers.turn? h hturn) hsettle h).1

omit [Host H] in
theorem Registers.withTimeline (h : e.Registers) (t : Timeline Fire) :
    Registers { e with world := e.world.withTimeline t } := by
  have hregistered : (e.world.withTimeline t).registered = e.world.registered := by
    unfold World.withTimeline
    cases e.world.service <;> rfl
  intro signal
  rw [hregistered]
  exact h signal

theorem registers_install (e : Engine (Logged H)) (c : Configuration) :
    (e.install c).2.Registers := by
  obtain ⟨entries, hlogs, hopening⟩ := e.logs_install c
  have htable : (e.install c).2.subscribers = subscriberTable (buildGraphs [] c.graphs).1 :=
    (closed_subscribers _).install rfl
  intro signal
  rw [hlogs.registered_eq, registeredAfter_eq, hopening.subscribed_eq, htable]
  show signal ∈ _ ++ [] ↔ _
  rw [List.append_nil, List.mem_reverse]

/-- Between two requests, the registered signals are those of the subscriber table. -/
theorem AtRest.registers (h : AtRest e) : e.Registers := by
  induction h with
  | fresh h =>
    intro signal
    rw [h.registered, h.subscribers]
    rfl
  | @serve e e' limit request _ hserve ih =>
    cases serve_outcome hserve with
    | @load c _ hsettle => exact (registers_install e c).settle hsettle
    | stop => exact fun _ => Iff.rfl
    | handled hsettle => exact Registers.settle (e := e.act (.post _)) ih hsettle
    | ignored | shiftLocal | host => exact ih
    | advance hadvance =>
      refine Owner.advanceTo_induct (P := Registers) ?_ ?_ hadvance ih
      · intro e fire t e' _ hfire he
        exact Registers.settle (e := Engine.act _ (.post (.timer fire))) (he.withTimeline t) hfire
      · intro e he
        exact he.withTimeline _

/-- A change, or time that passes, or a shift of the local wall clock. -/
def Request.IsStep {H : Type} : Request H → Prop
  | .change _ | .advance _ | .shiftLocal _ => True
  | .load _ | .stop | .host _ => False

end Engine

namespace Observed

open Engine

/-! ### Events that come alone -/

section Queue

variable {H : Type} [Host H] {graph : String} {o o' : Observed H} {event : Event} {limit : Nat}

theorem settle_of_nil (h : o.engine.world.queue = []) (limit : Nat) :
    o.settle graph limit = some o := by
  cases limit <;> rw [settle, h]

/-- An event that is one job. -/
theorem handle_eq_perform (graph : String) {job : Job} (h : o.engine.jobs event = [job]) :
    o.handle graph event = o.perform graph job := by
  rw [handle, h]
  rfl

/-- An event that comes when none waits, and brings no other, is handled in one turn. -/
theorem submit_succ (h : o.engine.world.queue = [])
    (hdone : (o.handle graph event).engine.world.queue = []) (limit : Nat) :
    o.submit graph (limit + 1) event = some (o.handle graph event) := by
  have hqueue : (o.engine.withQueue [event]).withQueue [] = o.engine := by
    rw [← h]
    rfl
  unfold submit
  rw [h, List.nil_append, settle]
  show settle graph limit ((o.withEngine ((o.engine.withQueue [event]).withQueue [])).handle graph
    event) = _
  rw [hqueue]
  exact settle_of_nil hdone limit

theorem submit_eq (h : o.engine.world.queue = [])
    (hdone : (o.handle graph event).engine.world.queue = [])
    (hsubmit : o.submit graph limit event = some o') :
    0 < limit ∧ o' = o.handle graph event := by
  cases limit with
  | zero =>
    unfold submit at hsubmit
    rw [h, settle] at hsubmit
    cases hsubmit
  | succ limit =>
    rw [submit_succ h hdone] at hsubmit
    exact ⟨Nat.succ_pos _, (Option.some.inj hsubmit).symm⟩

end Queue

/-! ### Requests -/

/-- A change of a signal that no bridge receives does nothing. -/
theorem handle_change_of_notMem {H : Type} [Host H] {graph : String} {o : Observed H} {ch : Change}
    (h : ch.signal ∉ o.engine.subscribers.keys) : o.handle graph (.change ch) = o := by
  have hnone : o.engine.subscribers.find? ch.signal = none := by
    rw [Dictionary.mem_keys_iff] at h
    exact Option.not_isSome_iff_eq_none.1 h
  unfold handle jobs receivers
  dsimp only
  rw [hnone]
  rfl

namespace Beside

variable {graph : String} {k limit : Nat} {c : Configuration} {o o' o₂ : Observed MemoryHost}

theorem queue_eq_nil (h : Beside graph k c o o') :
    o.engine.world.queue = [] ∧ o'.engine.world.queue = [] := by
  obtain ⟨r, r', habreast⟩ := h.abreast
  exact ⟨habreast.tied.queue_eq, habreast.tied.queue_eq'⟩

/-- A change is handled in both. -/
theorem handle_change (h : Beside graph k c o o')
    (helapsed : o'.engine.world.clock.elapsed = o.engine.world.clock.elapsed) (ch : Change) :
    Beside graph k c (o.handle graph (.change ch)) (o'.handle graph (.change ch)) ∧
      (o'.handle graph (.change ch)).engine.world.clock.elapsed =
        (o.handle graph (.change ch)).engine.world.clock.elapsed := by
  obtain ⟨r, r', habreast⟩ := h.abreast
  -- whatever the hosts know is not asked for
  have hlevel : Level (o.engine.world.host.host.sceneSignals o.engine.scenes) (fun _ => False)
      o.engine o'.engine :=
    ⟨rfl, helapsed, fun _ hsignal => hsignal.elim⟩
  have htasks : ∀ job ∈ deliveries (receivers o.engine.subscribers ch.signal) ch.value,
      ∀ fire, job.task ≠ .fire fire := fun _ hjob => task_ne_of_mem_deliveries hjob
  obtain ⟨hdone, hdoneLevel⟩ :=
    h.performAll hlevel (fun _ _ _ _ _ _ _ hsignal => hsignal) htasks
  have hjobs : o'.engine.jobs (.change ch) =
      ownJobs k (deliveries (receivers o.engine.subscribers ch.signal) ch.value) := by
    rw [ownJobs_deliveries, ← receivers_ownTable habreast.sorted, ← habreast.subscribers_eq]
    rfl
  rw [← hjobs] at hdone hdoneLevel
  exact ⟨hdone, hdoneLevel.elapsed_eq⟩

theorem serve_change (h : Beside graph k c o o')
    (helapsed : o'.engine.world.clock.elapsed = o.engine.world.clock.elapsed)
    (hregisters : o.engine.Registers) (hregisters' : o'.engine.Registers) {ch : Change}
    (hserve : o.serve graph limit (.change ch) = some o₂) :
    ∃ o₂', o'.serve graph limit (.change ch) = some o₂' ∧ Beside graph k c o₂ o₂' ∧
      o₂'.engine.world.clock.elapsed = o₂.engine.world.clock.elapsed := by
  obtain ⟨r, r', habreast⟩ := h.abreast
  obtain ⟨hqueue, hqueue'⟩ := h.queue_eq_nil
  have hboth := h.handle_change helapsed ch
  obtain ⟨hdone, hdone'⟩ := hboth.1.queue_eq_nil
  -- the graph receives no signals but those that some graph receives
  have hkeys : ch.signal ∈ o'.engine.subscribers.keys → ch.signal ∈ o.engine.subscribers.keys := by
    rw [habreast.subscribers_eq]
    intro hmem
    obtain ⟨entry, hentry, hsignal⟩ := List.mem_map.1 hmem
    obtain ⟨l, hl, -⟩ := Dictionary.exists_of_mem_choose hentry
    exact List.mem_map.2 ⟨_, hl, hsignal⟩
  simp only [serve, List.contains_iff_mem, hregisters ch.signal, hregisters' ch.signal] at hserve ⊢
  by_cases hmem' : ch.signal ∈ o'.engine.subscribers.keys
  · rw [if_pos (hkeys hmem')] at hserve
    obtain ⟨hlimit, rfl⟩ := submit_eq hqueue hdone hserve
    obtain ⟨limit, rfl⟩ := Nat.exists_eq_succ_of_ne_zero (Nat.ne_of_gt hlimit)
    rw [if_pos hmem']
    exact ⟨_, submit_succ hqueue' hdone' limit, hboth⟩
  · rw [if_neg hmem']
    rw [handle_change_of_notMem hmem'] at hboth
    refine ⟨o', rfl, ?_⟩
    by_cases hmem : ch.signal ∈ o.engine.subscribers.keys
    · rw [if_pos hmem] at hserve
      obtain ⟨-, rfl⟩ := submit_eq hqueue hdone hserve
      exact hboth
    · rw [if_neg hmem] at hserve
      cases hserve
      exact ⟨h, helapsed⟩

/-! ### Time -/

/-- A timer of the graph falls due: it fires in both. -/
theorem fire_own {target : Nat} {fire : Fire} {t : Timeline Fire} (h : Beside graph k c o o')
    (hpop : o.engine.world.clock.popDue? target = some (fire, t)) (hown : fire.graph = graph) :
    ∃ fire' t', o'.engine.world.clock.popDue? target = some (fire', t') ∧
      Beside graph k c ((o.withEngine (o.engine.withClock t)).handle graph (.timer fire))
        ((o'.withEngine (o'.engine.withClock t')).handle graph (.timer fire')) ∧
      ((o.withEngine (o.engine.withClock t)).handle graph
        (.timer fire)).engine.world.clock.elapsed ≤ target := by
  obtain ⟨r, r', habreast⟩ := h.abreast
  obtain ⟨fire', t', r₂, r₂', entries, hpop', hjobs, hjobs', hdone, hlog, hlog', hle⟩ :=
    habreast.fire_own hpop hown
  have hhandle := handle_eq_perform (o := o.withEngine (o.engine.withClock t)) graph hjobs
  have hhandle' := handle_eq_perform (o := o'.withEngine (o'.engine.withClock t')) graph hjobs'
  refine ⟨fire', t', hpop', ?_⟩
  rw [hhandle, hhandle']
  refine ⟨⟨⟨r₂, r₂', hdone⟩, ?_⟩, hle⟩
  rw [notes_perform (o := o.withEngine (o.engine.withClock t)) habreast.runner habreast.id_eq hlog,
    notes_perform (o := o'.withEngine (o'.engine.withClock t')) habreast.runner' habreast.id_eq'
      hlog']
  exact congrArg (· ++ entries) h.notes_eq

/-- A timer of another graph falls due: it fires in the first one. -/
theorem fire_other {target : Nat} {fire : Fire} {t : Timeline Fire} (h : Beside graph k c o o')
    (hpop : o.engine.world.clock.popDue? target = some (fire, t)) (hother : fire.graph ≠ graph) :
    Beside graph k c ((o.withEngine (o.engine.withClock t)).handle graph (.timer fire)) o' ∧
      ((o.withEngine (o.engine.withClock t)).handle graph
        (.timer fire)).engine.world.clock.elapsed ≤ target := by
  obtain ⟨r, r', habreast⟩ := h.abreast
  obtain ⟨i, hi, hjobs, hdone, hle⟩ := habreast.fire_other hpop hother
  have hhandle := handle_eq_perform (o := o.withEngine (o.engine.withClock t)) graph hjobs
  rw [hhandle]
  refine ⟨⟨⟨r, r', hdone⟩, ?_⟩, hle⟩
  rw [notes_perform_of_ne (o := o.withEngine (o.engine.withClock t))
    fun r₂ hr₂ => habreast.id_ne hr₂ hi]
  exact h.notes_eq

/-- No timer is due any more, and both reach the end of the time that passes. -/
theorem reach {target : Nat} (h : Beside graph k c o o')
    (hnone : o.engine.world.clock.popDue? target = none)
    (hle : o.engine.world.clock.elapsed ≤ target) :
    o'.engine.world.clock.popDue? target = none ∧
      Beside graph k c
        (o.withEngine (o.engine.withClock (o.engine.world.clock.reach target)))
        (o'.withEngine (o'.engine.withClock (o'.engine.world.clock.reach target))) ∧
      (o'.engine.world.clock.reach target).elapsed =
        (o.engine.world.clock.reach target).elapsed := by
  obtain ⟨r, r', habreast⟩ := h.abreast
  obtain ⟨hnone', htied, helapsed⟩ := habreast.tied.reach hnone hle
  exact ⟨hnone', ⟨⟨r, r', { habreast with tied := htied }⟩, h.notes_eq⟩, helapsed⟩

theorem withTimeline_eq (h : o.engine.world.service = .shared) (t : Timeline Fire) :
    (owner graph limit).withTimeline o t = o.withEngine (o.engine.withClock t) := by
  show o.withEngine { o.engine with world := o.engine.world.withTimeline t } = _
  rw [World.withTimeline_shared h]
  rfl

/-- Time passes for both. -/
theorem advanceTo {target turns turns' fired fired' n : Nat} (h : Beside graph k c o o')
    (hturns : turns ≤ turns') (hle : o.engine.world.clock.elapsed ≤ target)
    (hadvance : (owner graph limit).advanceTo target turns fired o = some (n, o₂)) :
    ∃ n' o₂', (owner graph limit).advanceTo target turns' fired' o' = some (n', o₂') ∧
      Beside graph k c o₂ o₂' ∧
      o₂'.engine.world.clock.elapsed = o₂.engine.world.clock.elapsed := by
  induction turns using Nat.strongRecOn generalizing turns' fired fired' o o' with
  | ind turns ih =>
    obtain ⟨r, r', habreast⟩ := h.abreast
    have htimeline : (owner graph limit).timeline o = o.engine.world.clock :=
      World.timeline_shared habreast.tied.service_eq
    have htimeline' : (owner graph limit).timeline o' = o'.engine.world.clock :=
      World.timeline_shared habreast.tied.service_eq'
    rcases Owner.advanceTo_cases hadvance with
      ⟨hnone, rfl⟩ | ⟨rest, fire, t, o₁, rfl, hpop, hfire, hrest⟩
    · rw [htimeline] at hnone ⊢
      obtain ⟨hnone', hreached, helapsed⟩ := h.reach hnone hle
      rw [← htimeline'] at hnone'
      refine ⟨_, _, Owner.advanceTo_of_none hnone' _ _, ?_⟩
      rw [htimeline', withTimeline_eq habreast.tied.service_eq,
        withTimeline_eq habreast.tied.service_eq']
      exact ⟨hreached, helapsed⟩
    · rw [htimeline] at hpop
      rw [withTimeline_eq habreast.tied.service_eq] at hfire
      have hqueue : (o.withEngine (o.engine.withClock t)).engine.world.queue = [] :=
        habreast.tied.queue_eq
      by_cases hown : fire.graph = graph
      · -- it is the first timer that is due for both
        obtain ⟨fire', t', hpop', hfired, hfiredLe⟩ := h.fire_own hpop hown
        obtain ⟨hdone, hdone'⟩ := hfired.queue_eq_nil
        obtain ⟨hlimit, rfl⟩ := submit_eq hqueue hdone hfire
        obtain ⟨limit, rfl⟩ := Nat.exists_eq_succ_of_ne_zero (Nat.ne_of_gt hlimit)
        obtain ⟨more, rfl⟩ := Nat.exists_eq_add_of_le' hturns
        have hqueue' : (o'.withEngine (o'.engine.withClock t')).engine.world.queue = [] :=
          habreast.tied.queue_eq'
        have hfire' : (owner graph (limit + 1)).fire
            ((owner graph (limit + 1)).withTimeline o' t') fire' =
            some ((o'.withEngine (o'.engine.withClock t')).handle graph (.timer fire')) := by
          rw [withTimeline_eq habreast.tied.service_eq']
          exact submit_succ hqueue' hdone' limit
        obtain ⟨n', o₂', hadvance', hboth⟩ :=
          ih rest (Nat.lt_succ_self rest) hfired (Nat.le_add_left rest more) hfiredLe hrest
        rw [← htimeline'] at hpop'
        exact ⟨n', o₂', (Owner.advanceTo_of_some hpop' hfire' _ fired').trans hadvance', hboth⟩
      · obtain ⟨hfired, hfiredLe⟩ := h.fire_other hpop hown
        obtain ⟨-, rfl⟩ := submit_eq hqueue hfired.queue_eq_nil.1 hfire
        exact ih rest (Nat.lt_succ_self rest) hfired (Nat.le_of_succ_le hturns) hfiredLe hrest

theorem serve_advance (h : Beside graph k c o o')
    (helapsed : o'.engine.world.clock.elapsed = o.engine.world.clock.elapsed) {millis : Nat}
    (hserve : o.serve graph limit (.advance millis) = some o₂) :
    ∃ o₂', o'.serve graph limit (.advance millis) = some o₂' ∧ Beside graph k c o₂ o₂' ∧
      o₂'.engine.world.clock.elapsed = o₂.engine.world.clock.elapsed := by
  obtain ⟨r, r', habreast⟩ := h.abreast
  obtain ⟨⟨n, _⟩, hadvance, rfl⟩ := Option.map_eq_some_iff.1 hserve
  have htimeline : (owner graph limit).timeline o = o.engine.world.clock :=
    World.timeline_shared habreast.tied.service_eq
  have htimeline' : (owner graph limit).timeline o' = o'.engine.world.clock :=
    World.timeline_shared habreast.tied.service_eq'
  rw [Owner.advance, htimeline] at hadvance
  obtain ⟨n', o₂', hadvance', hboth⟩ :=
    h.advanceTo (Nat.le_refl limit) (Nat.le_add_right _ millis) hadvance
  refine ⟨o₂', ?_, hboth⟩
  rw [serve, Owner.advance, htimeline', helapsed, hadvance', Option.map_some]

theorem serve_shiftLocal (h : Beside graph k c o o') (millis : Int) :
    Beside graph k c (o.withEngine (o.engine.shiftLocal millis))
      (o'.withEngine (o'.engine.shiftLocal millis)) := by
  obtain ⟨r, r', habreast⟩ := h.abreast
  exact ⟨⟨r, r', { habreast with tied := habreast.tied.shiftLocal millis }⟩, h.notes_eq⟩

/-- What the first one is asked for between two loads, the second one can be asked for, too. -/
theorem serve (h : Beside graph k c o o')
    (helapsed : o'.engine.world.clock.elapsed = o.engine.world.clock.elapsed)
    (hrest : AtRest o.engine) (hrest' : AtRest o'.engine) {step : Request (Logged MemoryHost)}
    (hstep : step.IsStep) (hserve : o.serve graph limit step = some o₂) :
    ∃ o₂', o'.serve graph limit step = some o₂' ∧ Beside graph k c o₂ o₂' ∧
      o₂'.engine.world.clock.elapsed = o₂.engine.world.clock.elapsed := by
  cases step with
  | change ch => exact h.serve_change helapsed hrest.registers hrest'.registers hserve
  | advance millis => exact h.serve_advance helapsed hserve
  | shiftLocal millis =>
    cases hserve
    exact ⟨_, rfl, h.serve_shiftLocal millis, helapsed⟩
  | load | stop | host => cases hstep

theorem atRest_serve {H : Type} [Host H] {graph : String} {o o₂ : Observed H}
    {request : Request (Logged H)} (h : AtRest o.engine)
    (hserve : o.serve graph limit request = some o₂) : AtRest o₂.engine := by
  refine h.serve limit request ?_
  rw [← o.engine_serve limit request, hserve, Option.map_some]

theorem serveAll (h : Beside graph k c o o')
    (helapsed : o'.engine.world.clock.elapsed = o.engine.world.clock.elapsed)
    (hrest : AtRest o.engine) (hrest' : AtRest o'.engine)
    {steps : List (Request (Logged MemoryHost))} (hsteps : ∀ step ∈ steps, step.IsStep)
    (hserve : o.serveAll graph limit steps = some o₂) :
    ∃ o₂', o'.serveAll graph limit steps = some o₂' ∧ Beside graph k c o₂ o₂' ∧
      o₂'.engine.world.clock.elapsed = o₂.engine.world.clock.elapsed := by
  induction steps generalizing o o' with
  | nil =>
    cases hserve
    exact ⟨o', rfl, h, helapsed⟩
  | cons step rest ih =>
    obtain ⟨o₁, hfirst, hothers⟩ := Option.bind_eq_some_iff.1 hserve
    obtain ⟨o₁', hfirst', hnext, hnextElapsed⟩ :=
      h.serve helapsed hrest hrest' (hsteps step List.mem_cons_self) hfirst
    obtain ⟨o₂', hothers', hboth⟩ := ih hnext hnextElapsed (atRest_serve hrest hfirst)
      (atRest_serve hrest' hfirst') (fun step hstep => hsteps step (List.mem_cons_of_mem _ hstep))
      hothers
    exact ⟨o₂', Option.bind_eq_some_iff.2 ⟨o₁', hfirst', hothers'⟩, hboth⟩

end Beside

end Observed

/-! ### Portraits -/

/-- Twins whose timers are due at the same times look alike. -/
theorem Runner.portrait_eq {r r' : Runner} {generation elapsed : Nat}
    (htwins : r.graph.Twin r'.graph) (hsteps : r'.lastSteps = r.lastSteps)
    (htruncated : r'.truncatedPasses = r.truncatedPasses)
    (hdue : ∀ p ∈ r.graph.pairings generation generation r'.graph,
      p.1.ticket.map Ticket.due = p.2.ticket.map Ticket.due) :
    r.portrait elapsed = r'.portrait elapsed := by
  have hnodes : r.graph.nodes.toList.map (Node.portrait elapsed) =
      r'.graph.nodes.toList.map (Node.portrait elapsed) := by
    refine map_eq_map_of_zip htwins.nodes.length_eq ?_
    rintro ⟨n, n'⟩ hn
    have htwin : n.Twin n' := (List.forall₂_iff_zip.1 htwins.nodes).2 hn
    have htimers :
        n.timers.map (fun t => (t.key, t.ticket.map fun ticket => ticket.due - elapsed)) =
        n'.timers.map fun t => (t.key, t.ticket.map fun ticket => ticket.due - elapsed) := by
      refine map_eq_map_of_zip htwin.keys.length_eq ?_
      rintro ⟨t, t'⟩ ht
      have hkey : t'.key = t.key := (List.forall₂_iff_zip.1 htwin.keys).2 ht
      have hsame : t.ticket.map Ticket.due = t'.ticket.map Ticket.due :=
        hdue _ (List.mem_flatMap.2 ⟨_, hn, List.mem_map_of_mem ht⟩)
      have hleft : ∀ ticket? : Option Ticket, (ticket?.map fun ticket => ticket.due - elapsed) =
          (ticket?.map Ticket.due).map (· - elapsed) := by
        intro ticket?
        rw [Option.map_map]
        rfl
      rw [hleft, hleft, hsame, hkey]
    show n.portrait elapsed = n'.portrait elapsed
    rw [Node.portrait, Node.portrait, htimers, htwin.id_eq, htwin.enabled_eq, htwin.behavior_eq,
      htwin.ports_eq]
  rw [Runner.portrait, Runner.portrait, hnodes, htwins.links_eq, hsteps, htruncated]

namespace Observed.Beside

open Engine

variable {graph : String} {k : Nat} {c : Configuration} {o o' : Observed MemoryHost}

/-- The graph looks the same in company and alone. -/
theorem exists_portrait (h : Beside graph k c o o')
    (helapsed : o'.engine.world.clock.elapsed = o.engine.world.clock.elapsed) :
    ∃ p, o.engine.portrait? graph = some p ∧ o'.engine.portrait? graph = some p := by
  obtain ⟨r, r', habreast⟩ := h.abreast
  have htied := habreast.tied
  obtain ⟨ties, hexcerpt, hties⟩ := htied.excerpt
  have hrunner : o.engine.runner? graph = some r := by
    rw [← habreast.id_eq]
    exact habreast.runs.runner?_id habreast.runner
  have hrunner' : o'.engine.runner? graph = some r' := by
    rw [runner?, habreast.runners_eq', ← habreast.id_eq, ← habreast.twins.id_eq]
    simp
  have hdue : ∀ p ∈ r.graph.pairings o.engine.generation o.engine.generation r'.graph,
      p.1.ticket.map Ticket.due = p.2.ticket.map Ticket.due := by
    intro p hp
    obtain ⟨x, hx, rfl⟩ := List.mem_map.1 (hties.symm.subset hp)
    exact congrArg some (hexcerpt.due_eq x hx).symm
  refine ⟨r.portrait o.engine.world.clock.elapsed, ?_, ?_⟩
  · rw [portrait?, hrunner, World.timeline_shared htied.service_eq]
    rfl
  · rw [portrait?, hrunner', World.timeline_shared htied.service_eq', helapsed,
      Runner.portrait_eq habreast.twins habreast.lastSteps_eq habreast.truncatedPasses_eq hdue]
    rfl

end Observed.Beside

namespace Engine

open Observed

/-! ### Noninterference -/

/-- Graphs do not interfere. If a configuration is loaded in which a graph stands apart, and changes
are delivered, time passes and the local wall clock is shifted in any order, then the same can be
done after the graph has been loaded alone, the graph is in the same state afterwards, with the same
time left for its timers, and its nodes have made the same calls to the host. -/
theorem AtRest.undisturbed {e e₁ : Engine (Logged MemoryHost)} {c : Configuration} {d : GraphDecl}
    {limit : Nat} {steps : List (Request (Logged MemoryHost))} (h : AtRest e)
    (hservice : e.world.service = .shared)
    (hapart : c.Apart (e.world.host.host.sceneSignals c.scenes) d)
    (hsteps : ∀ step ∈ steps, step.IsStep)
    (hserve : e.serveAll limit (.load c :: steps) = some e₁) :
    ∃ e₂ p, e.serveAll limit (.load { c with graphs := [d] } :: steps) = some e₂ ∧
      e₁.portrait? d.id = some p ∧ e₂.portrait? d.id = some p ∧
      e.callsOf d.id limit (.load { c with graphs := [d] } :: steps) =
        e.callsOf d.id limit (.load c :: steps) := by
  let o : Observed MemoryHost := { engine := e }
  have hengine : ∀ requests, (o.serveAll d.id limit requests).map Observed.engine =
      e.serveAll limit requests := fun requests => o.engine_serveAll limit requests
  rw [← hengine] at hserve
  obtain ⟨o₁, hall, rfl⟩ := Option.map_eq_some_iff.1 hserve
  obtain ⟨oc, hload, hrun⟩ := Option.bind_eq_some_iff.1 hall
  -- the loads come first, and no event waits after them
  obtain ⟨k, hloaded, helapsed⟩ := exists_even_install (o := o) h hservice hapart
  have hsettled : o.serve d.id limit (.load c) = some (o.install d.id c) :=
    settle_of_nil hloaded.queue_eq_nil.1 limit
  have hsettled' : o.serve d.id limit (.load { c with graphs := [d] }) =
      some (o.install d.id { c with graphs := [d] }) :=
    settle_of_nil hloaded.queue_eq_nil.2 limit
  obtain rfl : o.install d.id c = oc := Option.some.inj (hsettled.symm.trans hload)
  obtain ⟨o₂, hrun', hbeside, helapsed₂⟩ := hloaded.serveAll helapsed
    (Beside.atRest_serve h hsettled) (Beside.atRest_serve h hsettled') hsteps hrun
  have hall' : o.serveAll d.id limit (.load { c with graphs := [d] } :: steps) = some o₂ :=
    Option.bind_eq_some_iff.2 ⟨_, hsettled', hrun'⟩
  obtain ⟨p, hportrait, hportrait'⟩ := hbeside.exists_portrait helapsed₂
  refine ⟨o₂.engine, p, ?_, hportrait, hportrait', ?_⟩
  · rw [← hengine, hall', Option.map_some]
  · unfold callsOf
    rw [hall, hall']
    exact hbeside.notes_eq

/-- A graph that delays the signal `x`. -/
def delaying : GraphDecl :=
  { id := "g"
    nodes := [{ id := "a", typeName := "dp_in", params := [("dp", .str "x")] },
      { id := "b", typeName := "delay_on" },
      { id := "c", typeName := "dp_out", params := [("dp", .str "y")] }]
    links := [⟨⟨"a", "out"⟩, ⟨"b", "in"⟩⟩, ⟨⟨"b", "out"⟩, ⟨"c", "in"⟩⟩] }

/-- A graph that negates it. -/
def negating : GraphDecl :=
  { id := "h"
    nodes := [{ id := "a", typeName := "dp_in", params := [("dp", .str "x")] },
      { id := "b", typeName := "not" },
      { id := "c", typeName := "dp_out", params := [("dp", .str "z")] }]
    links := [⟨⟨"a", "out"⟩, ⟨"b", "in"⟩⟩, ⟨⟨"b", "out"⟩, ⟨"c", "in"⟩⟩] }

/-- The graph that delays the signal is not disturbed by the one that negates it. -/
theorem undisturbed_delaying :
    let e : Engine (Logged MemoryHost) := new { host := {} } { start := default }
    let c : Configuration := { graphs := [negating, delaying] }
    let steps : List (Request (Logged MemoryHost)) := [.change ⟨"x", .bool true⟩, .advance 60000]
    ∃ e₁ e₂ p, e.serveAll 4 (.load c :: steps) = some e₁ ∧
      e.serveAll 4 (.load { c with graphs := [delaying] } :: steps) = some e₂ ∧
      e₁.portrait? "g" = some p ∧ e₂.portrait? "g" = some p ∧
      e.callsOf "g" 4 (.load { c with graphs := [delaying] } :: steps) =
        e.callsOf "g" 4 (.load c :: steps) ∧
      (e.callsOf "g" 4 (.load c :: steps)).length = 2 := by
  intro e c steps
  have hserved : (e.serveAll 4 (.load c :: steps)).isSome = true := by decide +kernel
  obtain ⟨e₁, he₁⟩ := Option.isSome_iff_exists.1 hserved
  have hapart : c.Apart (e.world.host.host.sceneSignals c.scenes) delaying := by
    refine ⟨rfl, [negating], [], rfl, fun d' hd' _ => ?_⟩
    obtain rfl := List.mem_singleton.1 hd'
    exact ⟨by decide, by decide +kernel⟩
  have hsteps : ∀ step ∈ steps, step.IsStep := by
    intro step hstep
    rcases List.mem_cons.1 hstep with rfl | hstep
    · trivial
    · rw [List.mem_singleton.1 hstep]
      trivial
  obtain ⟨e₂, p, he₂, hportrait, hportrait', hcalls⟩ :=
    AtRest.undisturbed (.fresh (fresh_new _ rfl)) rfl hapart hsteps he₁
  exact ⟨e₁, e₂, p, he₁, he₂, hportrait, hportrait', hcalls, by decide +kernel⟩

end Engine

end SignalGraph
