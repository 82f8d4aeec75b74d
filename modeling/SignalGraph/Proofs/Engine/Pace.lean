import SignalGraph.Host.Memory
import SignalGraph.Proofs.Engine.Punctual
import SignalGraph.Proofs.Engine.Throttle

/-!
# The pace of writes in a run

In an orderly run, in which timers wait on the clock, an output bridge makes its attempts to write
at least one interval apart. A write that was put off comes exactly one interval after the attempt
before it, however often its value has been replaced meanwhile, unless that attempt was made in a
leap second (`Engine.writes_paced`).
-/

namespace SignalGraph

/-- The interval of an output bridge is the one that its declaration gives. -/
theorem NodeDecl.interval_of_build {d : NodeDecl} {n : Node} {b : OutputBridge}
    (h : d.build = .ok n) (hb : n.behavior = .outputBridge b) :
    Params.durationOr ⟨d.id, d.params⟩ "min_interval_ms" 0 = .ok b.interval := by
  unfold NodeDecl.build at h
  split at h
  · cases h
  next ty hty =>
  obtain ⟨behavior, hbehavior, rfl⟩ := exists_of_map_eq_ok h
  obtain rfl : behavior = .outputBridge b := hb
  obtain ⟨-, hparams⟩ := Behavior.outputBridge_of_ofParams hbehavior
  obtain ⟨signal, -, hparams⟩ := exists_of_bind_eq_ok hparams
  obtain ⟨interval, hinterval, hparams⟩ := exists_of_bind_eq_ok hparams
  obtain ⟨ack, -, hparams⟩ := exists_of_bind_eq_ok hparams
  cases hparams
  exact hinterval

namespace Engine

/-- How the attempts of an output bridge are paced on a clock with this start. -/
structure WritesPaced (start : Moment) (interval : Nat) (as : List Attempt) : Prop where
  spaced : Spaced interval as
  moment_eq : ∀ a ∈ as, a.moment = start.addMillis a.time
  /-- No attempt is made in a leap second unless the clock starts in one. -/
  exact : start.time.isLeap = false →
    Exact interval Attempt.virtualDistance as ∧ Exact interval Attempt.absoluteDistance as

variable {H : Type} [Host H]

/-- A node of a running graph was declared, and it has become what it is since then. -/
theorem exists_decl_of_run (e : Engine H) (c : Configuration) {as : List (Action H)}
    (has : ∀ a ∈ as, ∀ c, a ≠ .install c) {i j : Nat} {r : Runner} {n : Node}
    (hr : (e.run (.install c :: as)).runners[i]? = some r) (hn : r.graph.nodes[j]? = some n) :
    ∃ g ∈ c.graphs, g.id = r.graph.id ∧ ∃ d ∈ g.nodes, d.id = n.id ∧
      ∃ n₀, d.build = .ok n₀ ∧ n₀.Fresh ∧
        n₀.Lives (history i j (e.chronicle (.install c :: as))) n := by
  obtain ⟨g, n₀, hg, hn₀, hfresh, hlives⟩ := lives_of_run e c has hr hn
  obtain ⟨d, hd, rfl⟩ := exists_decl_of_mem_buildGraphs (List.mem_of_getElem? hg)
  obtain ⟨nd, hnd, hbuild⟩ := Graph.exists_decl_of_build hn₀
  have hruns : Runs c ((e.install c).2.run as) :=
    AllRunners.run (kept_runs c) has (runs_install e c)
  -- the running graph keeps the id of the graph that has been built
  obtain ⟨g, hg', halong⟩ := hruns i r hr
  obtain rfl : (Graph.build d).1 = g := Option.some.inj (hg.symm.trans hg')
  refine ⟨d, hd, ?_, nd, hnd, ?_, n₀, hbuild, hfresh, hlives⟩
  · rw [halong.id_eq, Graph.id_build]
  · rw [← (NodeDecl.fresh_of_build hbuild).2]
    exact congrArg Node.Plan.id hlives.plan_eq.symm

/-- In an orderly run, with timers that wait on the clock, an enabled output bridge keeps the pace
that its declaration sets, from the last load on. Consecutive attempts to write are at least that
many milliseconds apart, and a write that was put off comes at the end of the interval after the
attempt before it, or up to a second later if that attempt was made in a leap second. Serving
requests is such a run (`AtRest.orderly`); a run may also stop short in the middle of a request. -/
theorem writes_paced {e : Engine H} (hfresh : e.Fresh) (hshared : e.world.service = .shared)
    {before as : List (Action H)} {c : Configuration}
    (horderly : e.Orderly (before ++ .install c :: as)) (has : ∀ a ∈ as, ∀ c, a ≠ .install c)
    {i j : Nat} {r : Runner} {n : Node} {b : OutputBridge}
    (hr : (e.run (before ++ .install c :: as)).runners[i]? = some r)
    (hn : r.graph.nodes[j]? = some n) (henabled : n.enabled = true)
    (hb : n.behavior = .outputBridge b) :
    (∃ g ∈ c.graphs, g.id = r.graph.id ∧ ∃ d ∈ g.nodes, d.id = n.id ∧
      Params.durationOr ⟨d.id, d.params⟩ "min_interval_ms" 0 = .ok b.interval) ∧
    WritesPaced e.world.clock.start b.interval
      (attempts (history i j ((e.run before).chronicle (.install c :: as)))) := by
  -- all that happens is punctual, hence also what happens to the node since the load
  have htimed := (hfresh.working hshared).timed horderly
  have hpunctual : Punctual e.world.clock.start
      (history i j ((e.run before).chronicle (.install c :: as))) := by
    refine htimed.punctual.sublist ((history_sublist i j _).trans ?_)
    rw [chronicle_append, List.map_append]
    exact List.sublist_append_right _ _
  rw [run_append] at hr
  obtain ⟨g, hg, hgraph, d, hd, hnode, n₀, hbuild, hfresh₀, hlives⟩ :=
    exists_decl_of_run (e.run before) c has hr hn
  have henabled₀ : n₀.enabled = true := hlives.enabled_eq.symm.trans henabled
  obtain ⟨b₀, hb₀⟩ := hlives.exists_outputBridge hb
  -- the bridge has come from the one that was built, with the interval that was declared
  obtain ⟨b', hb', hinterval, hpaced⟩ := hlives.paced hfresh₀ henabled₀ hb₀ hpunctual
  cases hb.symm.trans hb'
  constructor
  · rw [hinterval]
    exact ⟨g, hg, hgraph, d, hd, hnode, NodeDecl.interval_of_build hbuild hb₀⟩
  · exact ⟨hpaced.spaced, fun a => hpunctual.moment_eq_of_mem_attempts,
      hpaced.spaced.exact hpunctual⟩

/-- The interval of an enabled output bridge of a running graph. -/
def interval? (e : Engine H) (i j : Nat) : Option Nat :=
  e.runners[i]?.bind fun r => r.graph.nodes[j]?.bind fun n =>
    match n.enabled, n.behavior with
    | true, .outputBridge b => some b.interval
    | _, _ => none

omit [Host H] in
theorem exists_of_interval? {e : Engine H} {i j interval : Nat}
    (h : e.interval? i j = some interval) :
    ∃ r n b, e.runners[i]? = some r ∧ r.graph.nodes[j]? = some n ∧ n.enabled = true ∧
      n.behavior = .outputBridge b ∧ b.interval = interval := by
  obtain ⟨r, hr, h⟩ := Option.bind_eq_some_iff.1 h
  obtain ⟨n, hn, h⟩ := Option.bind_eq_some_iff.1 h
  split at h
  · next b henabled hb => exact ⟨r, n, b, hr, hn, henabled, hb, Option.some.inj h⟩
  · cases h

/-- An engine that has not loaded anything and whose clock starts then. -/
def startingAt (start : Moment) : Engine MemoryHost :=
  new default { start := start }

/-- The signal becomes true and false at once, and a second passes. -/
def overtaken : List (Request MemoryHost) :=
  [.load throttling, .change ⟨"x", .bool true⟩, .change ⟨"x", .bool false⟩, .advance 1000]

/-- The first value is written at once and the second one at the end of the interval. -/
theorem writes_paced_overtaken : ∃ (as : List (Action MemoryHost)) (b : OutputBridge),
    (startingAt default).actionsAll 10 overtaken = .install throttling :: as ∧ b.interval = 1000 ∧
      WritesPaced default b.interval
        (attempts (history 0 1 ((startingAt default).chronicle (.install throttling :: as)))) ∧
      (attempts (history 0 1 ((startingAt default).chronicle (.install throttling :: as)))).map
        (fun a => (a.time, a.deferred)) = [(0, false), (1000, true)] := by
  have hserved : ((startingAt default).serveAll 10 overtaken).any
      (fun e => e.interval? 0 1 = some 1000) = true := by decide +kernel
  obtain ⟨e', hserved, hinterval⟩ := (Option.any_eq_true _ _).1 hserved
  have hfresh : (startingAt default).Fresh := fresh_new _ rfl
  have horderly := (AtRest.fresh hfresh).orderly hserved
  have hattempts : (attempts (history 0 1 ((startingAt default).chronicle
      ((startingAt default).actionsAll 10 overtaken)))).map (fun a => (a.time, a.deferred)) =
        [(0, false), (1000, true)] := by decide +kernel
  obtain ⟨as, hactions, has⟩ : ∃ as, (startingAt default).actionsAll 10 overtaken =
      .install throttling :: as ∧ ∀ a ∈ as, ∀ c, a ≠ .install c :=
    exists_actionsAll hserved (by simp)
  have hrun := run_actionsAll hserved
  rw [hactions] at horderly hattempts hrun
  rw [← hrun, decide_eq_true_eq] at hinterval
  obtain ⟨r, n, b, hr, hn, henabled, hb, hinterval⟩ := exists_of_interval? hinterval
  have horderly : (startingAt default).Orderly ([] ++ .install throttling :: as) := horderly
  obtain ⟨-, hpaced⟩ := writes_paced hfresh rfl horderly has hr hn henabled hb
  exact ⟨as, b, hactions, hinterval, hpaced, hattempts⟩

/-! ### Leap seconds -/

/-- Two bridges, each of which passes its signal on to another one that writes at most every two
seconds. -/
def twofold : Configuration :=
  { graphs := [{
      id := "g"
      nodes := [{ id := "a", typeName := "dp_in", params := [("dp", .str "x")] },
        { id := "b", typeName := "dp_out",
          params := [("dp", .str "y"), ("min_interval_ms", .int 2000)] },
        { id := "c", typeName := "dp_in", params := [("dp", .str "u")] },
        { id := "d", typeName := "dp_out",
          params := [("dp", .str "z"), ("min_interval_ms", .int 2000)] }]
      links := [⟨⟨"a", "out"⟩, ⟨"b", "in"⟩⟩, ⟨⟨"c", "out"⟩, ⟨"d", "in"⟩⟩] }] }

/-- The start of the last leap second. -/
def leapSecond : Moment :=
  .ofDate 2016 12 31 23 59 59 nanosPerSecond

/-- Both signals change in a leap second. One of them changes again before its end, the other one
when it is over. -/
def across : List (Request MemoryHost) :=
  [.load twofold, .change ⟨"x", .bool true⟩, .change ⟨"u", .bool true⟩, .advance 500,
    .change ⟨"x", .bool false⟩, .advance 500, .change ⟨"u", .bool false⟩, .advance 1000,
    .advance 1000]

/-- When the clock starts in a leap second, writes may be put off for too long by virtual time, and
they may come too early by absolute time. -/
theorem not_exact_across : ∃ e', (startingAt leapSecond).serveAll 10 across = some e' ∧
    e'.interval? 0 1 = some 2000 ∧ e'.interval? 0 3 = some 2000 ∧
    ¬ Exact 2000 Attempt.absoluteDistance (attempts (history 0 1 ((startingAt leapSecond).chronicle
      ((startingAt leapSecond).actionsAll 10 across)))) ∧
    ¬ Exact 2000 Attempt.virtualDistance (attempts (history 0 3 ((startingAt leapSecond).chronicle
      ((startingAt leapSecond).actionsAll 10 across)))) := by
  have hserved : ((startingAt leapSecond).serveAll 10 across).any
      (fun e => e.interval? 0 1 = some 2000 ∧ e.interval? 0 3 = some 2000) = true := by
    decide +kernel
  obtain ⟨e', hserved, hintervals⟩ := (Option.any_eq_true _ _).1 hserved
  obtain ⟨hfirst, hsecond⟩ := of_decide_eq_true hintervals
  have hearly : ¬ (attempts (history 0 1 ((startingAt leapSecond).chronicle
      ((startingAt leapSecond).actionsAll 10 across)))).IsChain fun a a' =>
        2000 ≤ a.absoluteDistance a' ∧ (a'.deferred = true → a.absoluteDistance a' = 2000) := by
    decide +kernel
  have hlate : ¬ (attempts (history 0 3 ((startingAt leapSecond).chronicle
      ((startingAt leapSecond).actionsAll 10 across)))).IsChain fun a a' =>
        2000 ≤ a.virtualDistance a' ∧ (a'.deferred = true → a.virtualDistance a' = 2000) := by
    decide +kernel
  exact ⟨e', hserved, hfirst, hsecond, fun hexact => hearly hexact.chain,
    fun hexact => hlate hexact.chain⟩

end Engine

end SignalGraph
