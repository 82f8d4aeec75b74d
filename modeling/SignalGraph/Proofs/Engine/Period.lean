import SignalGraph.Proofs.Engine.Pace
import SignalGraph.Proofs.Engine.Primed
import SignalGraph.Proofs.Engine.Readings
import SignalGraph.Proofs.Node.Solitary

/-!
# The time since a load

In a period, the engine loads a configuration and then serves requests that do not load anything,
while timers wait on the clock. Whatever happens meanwhile to the nodes of the running graphs is on
record (`Engine.record`): it has made them what they are (`Engine.Period.exists_lives`), it has
happened at the times that the clock showed (`Engine.Period.clocked`), and the timers that they have
armed wait for their times (`Engine.Working.awaits`).
-/

namespace SignalGraph

/-- One of the declarations of a graph describes the node, up to its state. -/
def Configuration.Declares (c : Configuration) (graph : String) (n : Node) : Prop :=
  ∃ g ∈ c.graphs, g.id = graph ∧ ∃ d ∈ g.nodes, ∃ n₀, d.build = .ok n₀ ∧ n.plan = n₀.plan

namespace Engine

variable {H : Type}

/-- The virtual time of the timers, in milliseconds. -/
def now (e : Engine H) : Nat :=
  e.world.timeline.elapsed

/-- The node has armed one timer, which has this key. It waits and is due at this virtual time,
which has not passed. -/
def Awaits (e : Engine H) (graph : String) (n : Node) (key : TimerKey) (due : Nat) : Prop :=
  ∃ (timer : ArmedTimer) (ticket : Ticket), n.timers = [timer] ∧ timer.key = key ∧
    timer.ticket = some ticket ∧ ticket.due = due ∧ e.now ≤ due ∧
    (ticket, ⟨e.generation, graph, n.id, key, timer.token⟩) ∈ e.world.timeline.pending

/-- What has happened to a node has happened at the times that the clock showed. -/
structure Clocked (e : Engine H) (eps : List Episode) : Prop where
  punctual : Punctual e.world.clock.start eps
  time_le : ∀ ep ∈ eps, ep.time ≤ e.now
  absoluteNow_eq : e.world.clock.absoluteNow = e.world.clock.start.addMillis e.now
  /-- What has passed in absolute time has passed in virtual time, unless the clock started in a
  leap second, which may be lost in absolute time. -/
  millisSince_eq : e.world.clock.start.time.isLeap = false → ∀ ep ∈ eps,
    e.world.clock.absoluteNow.millisSince ep.reading.absoluteNow = e.now - ep.time

variable [Host H] {e e' : Engine H} {limit i j : Nat} {c : Configuration} {later : List (Request H)}
  {r : Runner} {n : Node}

/-- The armed timers of an engine at work wait on the timeline. -/
theorem Working.awaits (h : e.Working) (hr : e.runners[i]? = some r)
    (hn : r.graph.nodes[j]? = some n) {key : TimerKey} {due : Nat}
    (hsole : n.timers.Sole key (some due)) : e.Awaits r.graph.id n key due := by
  obtain ⟨timer, htimers, rfl, hdue⟩ := hsole
  have hlive : e.world.service ≠ .inert := by
    rw [h.onTime.shared]
    exact nofun
  -- what the nodes have armed is what waits on the timeline, so the timer is there
  have harming := arming_mem_armings hr hn (htimers ▸ List.mem_singleton_self timer)
  obtain ⟨⟨ticket, fire⟩, hentry, heq⟩ :=
    List.mem_map.1 ((h.balanced.perm hlive).symm.subset harming)
  obtain ⟨rfl, hticket⟩ : fire = _ ∧ some ticket = timer.ticket := Arming.mk.inj heq
  obtain rfl := hdue ticket hticket.symm
  exact ⟨timer, ticket, htimers, rfl, hticket.symm, rfl, h.onTime.upcoming _ hentry, hentry⟩

/-- What has happened to a node while these requests were served. -/
def record (limit : Nat) (e : Engine H) (requests : List (Request H)) (i j : Nat) : List Episode :=
  history i j (e.chronicle (e.actionsAll limit requests))

/-- From `e` to `e'`, the engine loads a configuration and serves later requests. -/
structure Period (limit : Nat) (e : Engine H) (c : Configuration) (later : List (Request H))
    (e' : Engine H) : Prop where
  /-- The engine was new once, with timers that wait on the clock, and has served requests since. -/
  origin : ∃ (limit₀ : Nat) (e₀ : Engine H) (before : List (Request H)), e₀.Fresh ∧
    e₀.world.service = .shared ∧ e₀.serveAll limit₀ before = some e
  served : e.serveAll limit (.load c :: later) = some e'
  last : ∀ request ∈ later, ∀ c, request ≠ .load c

namespace Period

variable (h : e.Period limit c later e')

include h

theorem atRest : AtRest e := by
  obtain ⟨limit₀, e₀, before, hfresh, -, hserved⟩ := h.origin
  exact (AtRest.fresh hfresh).serveAll hserved

/-- The engine is at work throughout. -/
theorem working : e.Working := by
  obtain ⟨limit₀, e₀, before, hfresh, hshared, hserved⟩ := h.origin
  have horderly := (AtRest.fresh hfresh).orderly hserved
  exact run_actionsAll hserved ▸ (hfresh.working hshared).run horderly

theorem orderly : e.Orderly (e.actionsAll limit (.load c :: later)) :=
  h.atRest.orderly h.served

theorem working_end : e'.Working :=
  run_actionsAll h.served ▸ h.working.run h.orderly

theorem timed : e.Timed (e.chronicle (e.actionsAll limit (.load c :: later))) e' := by
  have htimed := h.working.timed h.orderly
  rwa [run_actionsAll h.served] at htimed

/-- What is on record has happened at the times that the clock showed. -/
theorem clocked (i j : Nat) : e'.Clocked (e.record limit (.load c :: later) i j) := by
  have hsub := history_sublist i j (e.chronicle (e.actionsAll limit (.load c :: later)))
  have hclock := World.timeline_eq_clock h.working_end.onTime.shared
  have hpunctual : Punctual e'.world.clock.start (e.record limit (.load c :: later) i j) :=
    h.timed.start_eq ▸ h.timed.punctual.sublist hsub
  have htime : ∀ ep ∈ e.record limit (.load c :: later) i j, ep.time ≤ e'.now := by
    intro ep hep
    obtain ⟨entry, hentry, rfl⟩ := List.mem_map.1 (hsub.subset hep)
    rw [now, hclock]
    exact (h.timed.within entry hentry).2
  have habsolute : e'.world.clock.absoluteNow = e'.world.clock.start.addMillis e'.now := by
    rw [now, hclock]
    rfl
  refine ⟨hpunctual, htime, habsolute, fun hleap ep hep => ?_⟩
  rw [habsolute, hpunctual.moment_eq ep hep]
  exact Moment.millisSince_addMillis (htime ep hep) (Moment.stamp_addMillis hleap _).2

theorem exists_actions : ∃ as, e.actionsAll limit (.load c :: later) = .install c :: as ∧
    (∀ a ∈ as, ∀ c, a ≠ .install c) ∧ e.run (.install c :: as) = e' := by
  obtain ⟨as, hactions, has⟩ := exists_actionsAll h.served h.last
  exact ⟨as, hactions, has, hactions ▸ run_actionsAll h.served⟩

/-- The nodes have become what they are by what is on record. -/
theorem exists_lives (hr : e'.runners[i]? = some r) (hn : r.graph.nodes[j]? = some n) :
    c.Declares r.graph.id n ∧
      ∃ n₀ : Node, n₀.Fresh ∧ n₀.Lives (e.record limit (.load c :: later) i j) n := by
  obtain ⟨as, hactions, has, rfl⟩ := h.exists_actions
  obtain ⟨g, hg, hgraph, d, hd, -, n₀, hbuild, hfresh, hlives⟩ := exists_decl_of_run e c has hr hn
  rw [← hactions] at hlives
  exact ⟨⟨g, hg, hgraph, d, hd, n₀, hbuild, hlives.plan_eq⟩, n₀, hfresh, hlives⟩

/-- Something has happened to every enabled node that is not an input bridge. -/
theorem record_ne_nil (hr : e'.runners[i]? = some r) (hn : r.graph.nodes[j]? = some n)
    (henabled : n.enabled = true) (hbridge : n.behavior.inputBridge? = none) :
    e.record limit (.load c :: later) i j ≠ [] := by
  obtain ⟨as, hactions, has, rfl⟩ := h.exists_actions
  rw [record, hactions]
  exact history_ne_nil e c has hr hn henabled hbridge

/-- The nodes have seen the next tick come as the settings say. -/
theorem graced (i j : Nat) : ∀ ep ∈ e.record limit (.load c :: later) i j,
    ep.reading.Graced e'.settings.minuteGrace := by
  intro ep hep
  obtain ⟨entry, hentry, rfl⟩ := List.mem_map.1 ((history_sublist i j _).subset hep)
  have hgraced := Graced.run e (e.actionsAll limit (.load c :: later))
  rw [← run_actionsAll h.served, hgraced.settings_eq]
  exact hgraced.graced entry hentry

/-- When time has passed, every timer that waits is due later. -/
theorem now_lt_of_advance {earlier : List (Request H)} {millis : Nat}
    (hlater : later = earlier ++ [.advance millis]) :
    ∀ entry ∈ e'.world.timeline.pending, e'.now < entry.1.due := by
  have hserved := h.served
  rw [hlater, ← List.cons_append, serveAll_append] at hserved
  obtain ⟨e₁, -, hlast⟩ := Option.bind_eq_some_iff.1 hserved
  obtain ⟨e₂, hlast, heq⟩ := Option.bind_eq_some_iff.1 hlast
  cases heq
  obtain ⟨⟨count, e₂⟩, hadvance, rfl⟩ := Option.map_eq_some_iff.1 hlast
  obtain ⟨fires, hpasses, -⟩ := exists_passes hadvance
  have helapsed := hpasses.elapsed_eq
  -- the last request has ended because nothing was due any more
  obtain ⟨limit', -, hpasses⟩ := hpasses
  have hnone := hpasses.popDue?_eq_none (steady_owner limit')
  rw [now, helapsed]
  exact h.working_end.balanced.ordered.lt_due hnone

end Period

/-- The node of a running graph, both given by their numbers. -/
def nodeAt? (e : Engine H) (i j : Nat) : Option Node :=
  e.runners[i]?.bind fun r => r.graph.nodes[j]?

/-- A new engine enters a period when it loads a configuration, and its nodes may be looked at. -/
theorem exists_period_of_fresh (hfresh : e.Fresh) (hshared : e.world.service = .shared)
    (hlast : ∀ request ∈ later, ∀ c, request ≠ .load c) {P : Engine H → Node → Prop}
    [∀ e n, Decidable (P e n)]
    (h : (e.serveAll limit (.load c :: later)).any
      (fun e' => (e'.nodeAt? i j).any fun n => P e' n) = true) :
    ∃ e' r n, e.Period limit c later e' ∧ e'.runners[i]? = some r ∧ r.graph.nodes[j]? = some n ∧
      P e' n := by
  obtain ⟨e', hserved, hnode⟩ := (Option.any_eq_true _ _).1 h
  obtain ⟨n, hnode, hP⟩ := (Option.any_eq_true _ _).1 hnode
  obtain ⟨r, hr, hn⟩ := Option.bind_eq_some_iff.1 hnode
  exact ⟨e', r, n, ⟨⟨0, e, [], hfresh, hshared, rfl⟩, hserved, hlast⟩, hr, hn, of_decide_eq_true hP⟩

/-- The same of an engine that has not loaded anything yet, on a host in memory. -/
theorem exists_period_of_nodeAt? {start : Moment} {later : List (Request MemoryHost)}
    (hlast : ∀ request ∈ later, ∀ c, request ≠ .load c) {P : Engine MemoryHost → Node → Prop}
    [∀ e n, Decidable (P e n)]
    (h : ((startingAt start).serveAll limit (.load c :: later)).any
      (fun e' => (e'.nodeAt? i j).any fun n => P e' n) = true) :
    ∃ e' r n, (startingAt start).Period limit c later e' ∧ e'.runners[i]? = some r ∧
      r.graph.nodes[j]? = some n ∧ P e' n :=
  exists_period_of_fresh (fresh_new _ rfl) rfl hlast h

end Engine

end SignalGraph
