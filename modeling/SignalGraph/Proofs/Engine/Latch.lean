import SignalGraph.Host.Memory
import SignalGraph.Proofs.Engine.Pace
import SignalGraph.Proofs.Engine.Primed
import SignalGraph.Proofs.Node.Latch

/-!
# Latches in a run

Every value that is stored at an input of a latch is one evaluation of it, in whatever way the value
has come: from a change, through a feedback loop, to both inputs one after the other, in a pass that
is cut short or while a load primes the nodes. So a latch shows what the history of its inputs says
(`Engine.latches_follow`).
-/

namespace SignalGraph

namespace Engine

/-- What an enabled node that has been built from a declaration shows when these values have been
stored at its inputs, if it is a latch. -/
structure LatchesFollow (p : Params) (n : Node) (eps : List Episode) : Prop where
  /-- The levels of the input ports are those of the history. -/
  level_eq : ∀ port < n.ports.inputs.length, n.level port = levels (stores eps) port
  /-- A toggle shows its first state if `reset` has never been true and false otherwise, flipped if
  there has been an odd number of edges of `in` since `reset` was last true. -/
  toggle : n.ports.type = .toggle → ∃ kind initial, EdgeKind.ofParams p .rising = .ok kind ∧
    p.flagOr "initial" false = .ok initial ∧
    n.ports.outputs = [.bool (toggled kind initial (stores eps))] ∧
    -- of the edges that come while `reset` is true nothing is left
    ∀ before after, stores eps = before ++ after → levels before 1 = true →
      (∀ c ∈ levelChangesFrom (levels before) after, c.after 1 = false) →
      n.ports.outputs = [.bool (edgeCount kind (levelChangesFrom (levels before) after)).bodd]
  /-- A set/reset latch shows what the last moment says at which `s` or `r` was true. -/
  setReset : n.ports.type = .rs → ∃ priority, p.text? "priority" = .ok priority ∧
    n.ports.outputs = [.bool (held (SetReset.prefersSet priority) (stores eps))]

variable {H : Type} [Host H]

/-- Whatever happens to the running graphs after a load, each enabled node among theirs was
declared, and if it is a latch, it shows what the history of its inputs since the load says. -/
theorem latches_follow (e : Engine H) (c : Configuration) {as : List (Action H)}
    (has : ∀ a ∈ as, ∀ c, a ≠ .install c) {i j : Nat} {r : Runner} {n : Node}
    (hr : (e.run (.install c :: as)).runners[i]? = some r) (hn : r.graph.nodes[j]? = some n)
    (henabled : n.enabled = true) :
    ∃ g ∈ c.graphs, g.id = r.graph.id ∧ ∃ d ∈ g.nodes, d.id = n.id ∧
      NodeType.ofName? d.typeName = some n.ports.type ∧
      LatchesFollow ⟨d.id, d.params⟩ n (history i j (e.chronicle (.install c :: as))) := by
  obtain ⟨g, hg, hgraph, d, hd, hnode, n₀, hbuild, hfresh, hlives⟩ :=
    exists_decl_of_run e c has hr hn
  obtain ⟨hname, hparams⟩ := NodeDecl.ofParams_of_build hbuild
  have henabled₀ : n₀.enabled = true := hlives.enabled_eq.symm.trans henabled
  refine ⟨g, hg, hgraph, d, hd, hnode, by rw [hname, hlives.type_eq], ?_⟩
  -- a latch has been evaluated in the load, so it shows its state
  have hshows {out : Bool} (hout : n.behavior.latched? = some out) :
      n.ports.outputs = [.bool out] := by
    have hbridge : n.behavior.inputBridge? = none :=
      Behavior.inputBridge?_of_latched? (by rw [hout]; rfl)
    exact hlives.outputs_of_latched? henabled₀ hout (history_ne_nil e c has hr hn henabled hbridge)
  generalize history i j (e.chronicle (.install c :: as)) = eps at hlives hshows ⊢
  refine ⟨?_, fun htype => ?_, fun htype => ?_⟩
  · intro port hport
    rw [hlives.length_inputs] at hport
    exact hlives.levels_eq hfresh hport
  · rw [hlives.type_eq] at htype
    rw [htype] at hparams
    obtain ⟨kind, initial, hkind, hinitial, t, ht, hfollows⟩ :=
      hlives.toggle hfresh henabled₀ htype hparams
    have houtputs : n.ports.outputs = [.bool (toggled kind initial (stores eps))] := by
      rw [← hfollows.state]
      exact hshows (by rw [ht]; rfl)
    refine ⟨kind, initial, hkind, hinitial, houtputs, fun before after hstores hreset hafter => ?_⟩
    rw [houtputs, hstores, toggled_append_of_reset hreset hafter]
  · rw [hlives.type_eq] at htype
    rw [htype] at hparams
    obtain ⟨priority, hpriority, l, hl, hfollows⟩ :=
      hlives.setReset hfresh henabled₀ htype hparams
    refine ⟨priority, hpriority, ?_⟩
    rw [← hfollows.state]
    exact hshows (by rw [hl]; rfl)

/-- Two bridges feed the inputs of a toggle that starts with true, and the inputs of a latch that
prefers to be set. -/
def latching : Configuration :=
  { graphs := [{
      id := "g"
      nodes := [{ id := "a", typeName := "dp_in", params := [("dp", .str "x")] },
        { id := "b", typeName := "dp_in", params := [("dp", .str "y")] },
        { id := "c", typeName := "toggle", params := [("initial", .bool true)] },
        { id := "d", typeName := "rs", params := [("priority", .str "s")] }]
      links := [⟨⟨"a", "out"⟩, ⟨"c", "in"⟩⟩, ⟨⟨"b", "out"⟩, ⟨"c", "reset"⟩⟩,
        ⟨⟨"a", "out"⟩, ⟨"d", "s"⟩⟩, ⟨⟨"b", "out"⟩, ⟨"d", "r"⟩⟩] }] }

/-- The first signal rises while the second one is true, falls, and rises again later. -/
def overlapping : List (Action MemoryHost) :=
  [.post (.change ⟨"y", .bool true⟩), .turn, .post (.change ⟨"x", .bool true⟩), .turn,
    .post (.change ⟨"x", .bool false⟩), .turn, .post (.change ⟨"y", .bool false⟩), .turn,
    .post (.change ⟨"x", .bool true⟩), .turn]

/-- The edge that came while `reset` was true does not count and the one that came later does, and
the latch that prefers to be set shows true. -/
theorem latches_follow_latching : ∃ n m,
    LatchesFollow ⟨"c", [("initial", .bool true)]⟩ n (history 0 2
      ((new default { start := default }).chronicle (.install latching :: overlapping))) ∧
    LatchesFollow ⟨"d", [("priority", .str "s")]⟩ m (history 0 3
      ((new default { start := default }).chronicle (.install latching :: overlapping))) ∧
    n.ports.type = .toggle ∧ n.ports.outputs = [.bool true] ∧
    m.ports.type = .rs ∧ m.ports.outputs = [.bool true] := by
  have hactions : ∀ a ∈ overlapping, ∀ c, a ≠ .install c := by
    simp [overlapping]
  -- a node of the graph that shows true follows its inputs
  have hfollows (j : Nat) (ty : NodeType)
      (hrun : ((((new default { start := default }).run
        (.install latching :: overlapping)).runners[0]?).bind fun r => r.graph.nodes[j]?).any
          (fun n => n.enabled && decide (n.ports.type = ty) &&
            decide (n.ports.outputs.map (Value.same (.bool true)) = [true])) = true) :
      ∃ n, n.ports.type = ty ∧ n.ports.outputs = [.bool true] ∧
        ∃ g ∈ latching.graphs, ∃ d ∈ g.nodes, NodeType.ofName? d.typeName = some ty ∧
          LatchesFollow ⟨d.id, d.params⟩ n (history 0 j
            ((new default { start := default }).chronicle (.install latching :: overlapping))) := by
    obtain ⟨n, hnode, hn⟩ := Option.any_eq_true _ _ |>.1 hrun
    obtain ⟨r, hr, hnode⟩ := Option.bind_eq_some_iff.1 hnode
    simp only [Bool.and_eq_true, decide_eq_true_eq] at hn
    obtain ⟨⟨henabled, rfl⟩, hshows⟩ := hn
    obtain ⟨g, hg, -, d, hd, -, htype, hlatches⟩ :=
      latches_follow _ latching hactions hr hnode henabled
    obtain ⟨a, houtputs, hsame⟩ := List.map_eq_singleton_iff.1 hshows
    rcases (Value.same_iff _ a).1 hsame with rfl | ⟨x, y, hx, -⟩
    · exact ⟨n, rfl, houtputs, g, hg, d, hd, htype, hlatches⟩
    · cases hx
  obtain ⟨n, hn, hnshows, g, hg, d, hd, hdtype, hnfollows⟩ :=
    hfollows 2 .toggle (by decide +kernel)
  obtain ⟨m, hm, hmshows, g', hg', d', hd', hdtype', hmfollows⟩ :=
    hfollows 3 .rs (by decide +kernel)
  obtain rfl := List.mem_singleton.1 hg
  obtain rfl := List.mem_singleton.1 hg'
  have hdecl : d = { id := "c", typeName := "toggle", params := [("initial", .bool true)] } := by
    simp only [List.mem_cons, List.not_mem_nil, or_false] at hd
    rcases hd with rfl | rfl | rfl | rfl
    case inr.inr.inl => rfl
    all_goals exact absurd hdtype (by decide)
  have hdecl' : d' = { id := "d", typeName := "rs", params := [("priority", .str "s")] } := by
    simp only [List.mem_cons, List.not_mem_nil, or_false] at hd'
    rcases hd' with rfl | rfl | rfl | rfl
    case inr.inr.inr => rfl
    all_goals exact absurd hdtype' (by decide)
  subst hdecl hdecl'
  exact ⟨n, m, hnfollows, hmfollows, hn, hnshows, hm, hmshows⟩

end Engine

end SignalGraph
