import SignalGraph.Host.Memory
import SignalGraph.Proofs.Engine.Ledger

/-!
# Timers in step with the timeline

Between two requests, what waits on the timeline is exactly what the nodes of the running graphs
have armed (`Engine.AtRest.timers_exact`). The balance of the two is a ledger
(`World.ledger_balanced`), so whatever the engine does keeps it. In `advance` it is out of balance
for a moment: the timer that falls due has left the timeline while its node still holds it. The turn
that handles the fire restores it (`Engine.Balanced.fired`).
-/

namespace SignalGraph

/-! ### The balance -/

namespace World

variable {H : Type} {w w' : World H}

theorem withTimeline_live (w : World H) (t : Timeline Fire) :
    (w.withTimeline t).service ≠ .inert ↔ w.service ≠ .inert := by
  unfold withTimeline
  cases w.service <;> simp

end World

/-- The arming that an entry of the timeline stands for. -/
def Arming.ofEntry (entry : Ticket × Fire) : Arming :=
  ⟨entry.2, some entry.1⟩

/-- What waits on the timeline is what has been armed, and every event that waits is a change. -/
structure World.Balanced {H : Type} (w : World H) (l : List Arming) : Prop where
  ordered : w.timeline.Ordered
  changes : ∀ event ∈ w.queue, ∃ c, event = .change c
  perm : w.service ≠ .inert → (w.timeline.pending.map Arming.ofEntry).Perm l

namespace World.Balanced

variable {H : Type} {w w' : World H} {l : List Arming}

/-- Another timeline balances what waits on it. -/
theorem withTimeline {t : Timeline Fire} (hchanges : ∀ event ∈ w.queue, ∃ c, event = .change c)
    (ht : t.Ordered) (hperm : w.service ≠ .inert → (t.pending.map Arming.ofEntry).Perm l) :
    (w.withTimeline t).Balanced l := by
  constructor
  · rw [timeline_withTimeline]
    exact ht
  · rw [queue_withTimeline]
    exact hchanges
  · intro hlive
    rw [timeline_withTimeline]
    exact hperm ((withTimeline_live w t).1 hlive)

theorem quiet (hw : w.Quiet w') (h : w.Balanced l) : w'.Balanced l where
  ordered := by
    rw [hw.timeline_eq]
    exact h.ordered
  changes := by
    obtain ⟨changes, hqueue⟩ := hw.exists_queue
    rw [hqueue]
    intro event hevent
    rcases List.mem_append.1 hevent with hevent | hevent
    · exact h.changes event hevent
    · obtain ⟨c, -, rfl⟩ := List.mem_map.1 hevent
      exact ⟨c, rfl⟩
  perm := by
    rw [hw.timeline_eq, hw.service_eq]
    exact h.perm

/-- The entry of an arming that is in the balance waits on the timeline, and the others balance. -/
theorem exists_entry {fire : Fire} {ticket : Option Ticket} (h : w.Balanced (⟨fire, ticket⟩ :: l))
    (hlive : w.service ≠ .inert) : ∃ entry rest, Arming.ofEntry entry = ⟨fire, ticket⟩ ∧
      w.timeline.pending.Perm (entry :: rest) ∧ (rest.map Arming.ofEntry).Perm l :=
  exists_perm_cons_of_map (h.perm hlive)

theorem cancel (timer : ArmedTimer) {fire : Fire} (h : w.Balanced (⟨fire, timer.ticket⟩ :: l)) :
    (w.cancelTimer timer).Balanced l := by
  unfold cancelTimer
  split
  · next ticket hticket =>
    refine withTimeline h.changes (h.ordered.cancel ticket) ?_
    intro hlive
    obtain ⟨entry, rest, heq, hpending, hrest⟩ := h.exists_entry hlive
    rw [hticket] at heq
    cases heq
    exact ((h.ordered.cancel_perm hpending).map _).trans hrest
  · next hticket =>
    refine ⟨h.ordered, h.changes, ?_⟩
    intro hlive
    -- an arming without a ticket is not in the balance
    obtain ⟨entry, rest, heq, -, -⟩ := h.exists_entry hlive
    rw [hticket] at heq
    cases heq

theorem schedule (fire : Fire) (delay : Nat) (h : w.Balanced l) :
    (w.schedule delay fire).2.Balanced (⟨fire, (w.schedule delay fire).1⟩ :: l) := by
  unfold World.schedule
  split
  · next hinert => exact ⟨h.ordered, h.changes, fun hlive => (hlive hinert).elim⟩
  · next hlive =>
    refine withTimeline h.changes (h.ordered.schedule delay fire) ?_
    intro _
    have hscheduled := (Timeline.schedule_perm w.timeline delay fire).map Arming.ofEntry
    exact hscheduled.trans ((h.perm hlive).cons _)

end World.Balanced

theorem World.ledger_balanced (H : Type) : Ledger (World.Balanced (H := H)) where
  perm hl h := ⟨h.ordered, h.changes, fun hlive => (h.perm hlive).trans hl⟩
  quiet hw h := h.quiet hw
  cancel _ timer h := h.cancel timer
  schedule {w _} fire delay _ h :=
    World.Balanced.schedule (w := { w with nextToken := w.nextToken + 1 }) fire delay
      ⟨h.ordered, h.changes, h.perm⟩

/-- Timers that can fire do not become timers that cannot. -/
theorem World.ledger_live (H : Type) : Ledger fun (w : World H) _ => w.service ≠ .inert where
  perm _ h := h
  quiet hw h := by
    rw [hw.service_eq]
    exact h
  cancel _ timer h := by
    unfold cancelTimer
    split
    · exact (withTimeline_live _ _).2 h
    · exact h
  schedule fire delay _ h := by
    unfold World.schedule
    split
    · next hinert => exact (h hinert).elim
    · exact (withTimeline_live _ _).2 h

/-! ### The engine -/

namespace Engine

variable {H : Type} [Host H] {e e' : Engine H}

/-- The balance of an engine. -/
def Balanced (e : Engine H) : Prop :=
  e.world.Balanced e.armings

omit [Host H] in
/-- No two timers of the running graphs have one address. -/
theorem eq_of_fire_eq {c : Configuration} (hruns : Runs c e) {a b : Arming} (ha : a ∈ e.armings)
    (hb : b ∈ e.armings) (hfire : a.fire = b.fire) : a = b := by
  obtain ⟨i, r, j, n, t, hr, hn, ht, rfl⟩ := mem_armings ha
  obtain ⟨i', r', j', n', t', hr', hn', ht', rfl⟩ := mem_armings hb
  obtain ⟨hgraph, hnode, hkey, htoken⟩ : r.graph.id = r'.graph.id ∧ n.id = n'.id ∧
      t.key = t'.key ∧ t.token = t'.token := by simpa [ArmedTimer.arming] using hfire
  -- ids tell graphs and nodes apart, and keys the timers of one node
  obtain rfl := hruns.eq_of_id_eq hr hr' hgraph
  cases hr.symm.trans hr'
  have hs := hruns.sound hr
  have hindex := hs.indexOf?_id hn
  rw [hnode, hs.indexOf?_id hn'] at hindex
  cases hindex
  cases hn.symm.trans hn'
  obtain rfl := List.inj_on_of_nodup_map (hs.uniqueKeys _ _ hn) ht ht' hkey
  rfl

namespace Balanced

/-- An event that waits in a balanced engine is a change, and handling it keeps the balance. -/
theorem turn? (h : e.Balanced) (hturn : e.turn? = some e') : e'.Balanced := by
  obtain ⟨event, rest, hqueue, rfl⟩ := turn?_eq_some hturn
  have hchanges := h.changes
  rw [hqueue] at hchanges
  obtain ⟨c, rfl⟩ := hchanges event List.mem_cons_self
  refine (World.ledger_balanced H).closed.handle_change c ?_
  exact ⟨h.ordered, fun event hevent => hchanges event (List.mem_cons_of_mem _ hevent), h.perm⟩

theorem settle {limit : Nat} (h : e.Balanced) (hsettle : e.settle limit = some e') :
    e'.Balanced :=
  (settle_induct (fun hturn h => h.turn? hturn) hsettle h).1

theorem stop (h : e.Balanced) : e.stop.Balanced := by
  have hteardown := (World.ledger_balanced H).teardown h
  exact ⟨hteardown.ordered, (fun _ hevent => nomatch hevent), hteardown.perm⟩

/-- A timer that falls due leaves the timeline, and handling its fire restores the balance. -/
theorem fired {c : Configuration} {target : Nat} {fire : Fire} {t : Timeline Fire}
    (hruns : Runs c e) (h : e.Balanced) (hpop : e.world.timeline.popDue? target = some (fire, t)) :
    (handle { e with world := e.world.withTimeline t } (.timer fire)).Balanced := by
  obtain ⟨ticket, hpending, -⟩ := Timeline.popDue?_eq_some hpop
  -- in the balance, the fire stands for the first arming, the rest of the timeline for the others
  have hbefore : e.world.service ≠ .inert →
      (⟨fire, some ticket⟩ :: t.pending.map Arming.ofEntry).Perm e.armings := by
    intro hlive
    have hperm := h.perm hlive
    rwa [hpending] at hperm
  have hpopped : ∀ l, (e.world.service ≠ .inert → (t.pending.map Arming.ofEntry).Perm l) →
      (e.world.withTimeline t).Balanced l :=
    fun l hl => World.Balanced.withTimeline h.changes (h.ordered.popDue hpop) hl
  rcases handle_timer (e := { e with world := e.world.withTimeline t }) hruns fire with
    ⟨heq, hnone⟩ | ⟨ticket', others, hothers, hkeeps⟩
  · rw [heq]
    refine hpopped _ fun hlive => ?_
    have hmem := (hbefore hlive).subset List.mem_cons_self
    exact (hnone _ hmem rfl).elim
  · refine hkeeps (World.ledger_balanced H) (hpopped others fun hlive => ?_)
    have hmem := (hbefore hlive).subset List.mem_cons_self
    have hmem' := hothers.symm.subset List.mem_cons_self
    have hsame := eq_of_fire_eq hruns hmem hmem' rfl
    rw [← hsame] at hothers
    exact ((hbefore hlive).trans hothers).cons_inv

/-- Everything that a timer that falls due leads to keeps the balance. -/
theorem submit_fire {c : Configuration} {limit target : Nat} {fire : Fire} {t : Timeline Fire}
    (hruns : Runs c e) (h : e.Balanced) (hqueue : e.world.queue = [])
    (hpop : e.world.timeline.popDue? target = some (fire, t))
    (hsubmit : submit limit { e with world := e.world.withTimeline t } (.timer fire) = some e') :
    e'.Balanced := by
  have hnil : (e.world.withTimeline t).queue = [] := by
    rw [World.queue_withTimeline, hqueue]
  have hworld : { e.world.withTimeline t with queue := [] } = e.world.withTimeline t := by
    rw [← hnil]
  unfold submit at hsubmit
  dsimp only at hsubmit
  rw [hnil] at hsubmit
  -- the fire is alone in the queue, so it is handled first, and only changes can follow
  obtain ⟨rest, hrest⟩ := exists_settle_of_turn? rfl hsubmit
  dsimp only at hrest
  rw [hworld] at hrest
  exact (h.fired hruns hpop).settle hrest

omit [Host H] in
theorem withTimeline {t : Timeline Fire} (h : e.Balanced) (ht : t.Ordered)
    (hpending : t.pending = e.world.timeline.pending) :
    Balanced { e with world := e.world.withTimeline t } := by
  refine World.Balanced.withTimeline h.changes ht ?_
  rw [hpending]
  exact h.perm

omit [Host H] in
theorem shiftLocal (h : e.Balanced) (millis : Int) : (e.shiftLocal millis).Balanced := by
  have htimeline : (e.shiftLocal millis).world.timeline.pending = e.world.timeline.pending ∧
      (e.shiftLocal millis).world.timeline.Ordered := by
    have hordered := h.ordered
    unfold World.timeline at hordered ⊢
    dsimp only [Engine.shiftLocal]
    cases hservice : e.world.service with
    | separate t =>
      rw [hservice] at hordered
      exact ⟨rfl, hordered⟩
    | shared | inert =>
      rw [hservice] at hordered
      exact ⟨rfl, hordered.shiftLocal millis⟩
  refine ⟨htimeline.2, h.changes, ?_⟩
  rw [htimeline.1]
  exact h.perm

end Balanced

/-- Every state between two requests is balanced. -/
theorem AtRest.balanced (h : AtRest e) : e.Balanced := by
  induction h with
  | @fresh e h =>
    refine ⟨Timeline.ordered_of_pending_eq_nil h.pending, ?_, fun _ => ?_⟩
    · rw [h.queue]
      exact fun _ hevent => nomatch hevent
    · rw [h.pending, armings, h.runners]
      exact .nil
  | @serve e e' limit request hrest hserve ih =>
    cases serve_outcome hserve with
    | @load c _ hsettle =>
      have hinstall := ledger_install (World.ledger_balanced H) c ih
      exact Balanced.settle hinstall hsettle
    | stop => exact ih.stop
    | @handled c _ hsettle =>
      have hposted : (e.act (.post (.change c))).Balanced := by
        refine ⟨ih.ordered, ?_, ih.perm⟩
        intro event hevent
        rcases List.mem_append.1 hevent with hevent | hevent
        · exact ih.changes event hevent
        · exact ⟨c, List.mem_singleton.1 hevent⟩
      exact hposted.settle hsettle
    | ignored => exact ih
    -- the queue is empty between fires, so the books are balanced whenever a timer falls due
    | advance hadvance =>
      have hbefore : Reachable e ∧ e.world.queue = [] ∧ e.Balanced :=
        ⟨hrest.reachable, hrest.queue_eq_nil, ih⟩
      refine (Owner.advanceTo_induct
        (P := fun e : Engine H => Reachable e ∧ e.world.queue = [] ∧ e.Balanced) ?_ ?_ hadvance
        hbefore).2.2
      · rintro e fire t e' hpop hfire ⟨hreachable, hqueue, hbalanced⟩
        obtain ⟨c, hruns⟩ := hreachable.exists_runs
        have hreachable' := (hreachable.withTimeline t).submit hfire
        have hbalanced' := hbalanced.submit_fire hruns hqueue hpop hfire
        exact ⟨hreachable', queue_eq_nil_of_settle hfire, hbalanced'⟩
      · rintro e ⟨hreachable, hqueue, hbalanced⟩
        refine ⟨hreachable.withTimeline _, ?_, ?_⟩
        · exact (World.queue_withTimeline e.world _).trans hqueue
        · exact hbalanced.withTimeline (hbalanced.ordered.reach _) rfl
    | @shiftLocal millis => exact ih.shiftLocal millis
    | host => exact ⟨ih.ordered, ih.changes, ih.perm⟩

/-! ### Between two requests -/

omit [Host H] in
theorem length_armings (e : Engine H) :
    e.armings.length = (e.runners.toList.map fun r => r.graph.armedTimers).sum := by
  rw [armings, List.length_flatMap]
  congr 2
  ext r
  rw [Graph.armings, List.length_flatMap, Graph.armedTimers, ← Array.foldl_toList,
    List.sum_eq_foldl, List.foldl_map]
  simp only [Node.armings, List.length_map]

/-- The timers that wait and the timers that nodes of running graphs hold correspond one to one. -/
structure TimersExact (e : Engine H) : Prop where
  /-- What waits are the armed timers, each under its own ticket, with the current generation, the
  ids of its graph and its node, its key and its token. -/
  perm : (e.world.timeline.pending.map Arming.ofEntry).Perm e.armings
  nodup_tickets : (e.world.timeline.pending.map Prod.fst).Nodup
  /-- No node holds two timers under one key. -/
  uniqueKeys : ∀ r ∈ e.runners, ∀ n ∈ r.graph.nodes, n.timers.UniqueKeys
  length_eq : e.world.timeline.pending.length =
    (e.runners.toList.map fun r => r.graph.armedTimers).sum
  /-- Nothing waits when all graphs have been stopped. -/
  stopped : e.stop.world.timeline.pending = []

/-- Between two requests, the timers of an engine are exact. -/
theorem AtRest.timers_exact {e : Engine H} (h : AtRest e) (hlive : e.world.service ≠ .inert) :
    e.TimersExact := by
  obtain ⟨c, hruns⟩ := h.reachable.exists_runs
  have hperm := h.balanced.perm hlive
  refine ⟨hperm, h.balanced.ordered.nodup_tickets, ?_, ?_, ?_⟩
  · intro r hr n hn
    exact hruns.uniqueKeys hr hn
  · rw [← length_armings, ← hperm.length_eq, List.length_map]
  · have hstopped : e.stop.world.service ≠ .inert := (World.ledger_live H).teardown hlive
    exact List.map_eq_nil_iff.1 (h.balanced.stop.perm hstopped).eq_nil

/-- The delay waits as soon as the graph has been loaded. -/
theorem timers_exact_delayed :
    ((new default { start := default } : Engine MemoryHost).install delayed).2.TimersExact ∧
      ((new default { start := default } : Engine MemoryHost).install
        delayed).2.world.timeline.pending.length = 1 := by
  have hqueue : ((new default { start := default } : Engine MemoryHost).install
      delayed).2.world.queue = [] := List.isEmpty_iff.1 (by decide +kernel)
  refine ⟨AtRest.timers_exact ((AtRest.fresh (fresh_new _ rfl)).install hqueue) ?_, ?_⟩
  · exact ledger_install (World.ledger_live MemoryHost) delayed (fun h => nomatch h)
  · decide +kernel

end Engine

end SignalGraph
