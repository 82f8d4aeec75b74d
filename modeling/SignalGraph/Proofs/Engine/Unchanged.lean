import SignalGraph.Proofs.Engine.Refinement
import SignalGraph.Proofs.Node.Same

/-!
# What counts as unchanged

A pass leaves out what is the same as before: an input that holds the same value already is not
evaluated on, and an output that has the same value as before is not passed on. No node can tell
(`Engine.changes_seen`). The equality that decides is a congruence (`Value.Congruence`), no answer
of any node depends on which of two values that are the same stands at an input
(`Behavior.unaffected_of_same`), and in every state of every run the nodes answer on the inputs they
hold as they would on the present outputs of the nodes that feed them (`Graph.UpToDate`).
-/

namespace SignalGraph

/-! ### A congruence -/

/-- An equivalence of values that equates only values that are equal or zeros, and that what gates,
comparisons, limits and output bridges make of their inputs respects. -/
structure Value.Congruence (R : Value → Value → Prop) : Prop where
  equivalence : Equivalence R
  eq_or_zeros : ∀ {a a' : Value}, R a a' →
    a = a' ∨ ∃ x x', a = .num x ∧ a' = .num x' ∧ (x == 0.0) = true ∧ (x' == 0.0) = true
  nan : ∀ {x x' : Float}, x.isNaN = true → x'.isNaN = true → R (.num x) (.num x')
  zeros : ∀ {x x' : Float}, (x == 0.0) = true → (x' == 0.0) = true → R (.num x) (.num x')
  invert : ∀ {a a' : Value}, R a a' → R (invert a) (invert a')
  gate : ∀ (g : Gate) {a a' b b' : Value}, R a a' → R b b' → R (g.output a b) (g.output a' b')
  comparison : ∀ (c : Comparison) {a a' b b' : Value}, R a a' → R b b' →
    R (c.output a b) (c.output a' b')
  clamp : ∀ (c : Clamp) {a a' : Value}, R a a' → R (c.output a) (c.output a')
  /-- Whether an output bridge repeats its last write. -/
  repeats : ∀ (b : OutputBridge) {a a' : Value}, R a a' → b.repeats a = b.repeats a'
  /-- The last write may be replaced as well. -/
  repeats_lastWrite : ∀ (b : OutputBridge) (time : Moment) (a : Value) {last last' : Value},
    R last last' → { b with lastWrite := some (last, time) }.repeats a =
      { b with lastWrite := some (last', time) }.repeats a

theorem Value.congruence_same : Congruence fun a a' => a.same a' = true where
  equivalence := ⟨same_refl, same_symm, same_trans⟩
  eq_or_zeros h := by
    simp only [← Decimal.isZero_iff]
    exact (same_iff _ _).1 h
  nan hx hx' := by
    rw [same, hx, hx']
    exact Bool.or_true _
  zeros hx hx' := by
    rw [← Decimal.isZero_iff] at hx hx'
    exact (same_iff _ _).2 (.inr ⟨_, _, rfl, rfl, hx, hx'⟩)
  invert := invert_congr
  gate g _ _ _ _ := g.output_congr
  comparison c _ _ _ _ := c.output_congr
  clamp c _ _ := c.output_congr
  repeats b _ _ := OutputBridge.repeats_congr (.refl b)
  repeats_lastWrite b time a last last' h := by
    refine OutputBridge.repeats_congr ⟨rfl, rfl, rfl, .some ⟨h, rfl⟩, ?_⟩ (same_refl a)
    exact (OutputBridge.Same.refl b).waiting

/-! ### Up to date -/

/-- The inputs of a node, if each held the present value of the output that feeds it. -/
def Graph.fed (g : Graph) (i : Nat) (n : Node) : List Value :=
  (List.range n.ports.inputs.length).map fun port =>
    match g.driver? ⟨i, port⟩ with
    | some source => g.outputAt source
    | none => .null

/-- The node answers on the inputs it holds as it would on the present outputs of the nodes that
feed it, and if it computes its outputs, an answer on these would change nothing. -/
structure Graph.UpToDate (g : Graph) (i : Nat) (n : Node) : Prop where
  answer : ∀ trigger reading, SameAnswer (n.behavior.react (n.view trigger reading))
    (n.behavior.react ((n.view trigger reading).withInputs (g.fed i n)))
  outputs : n.enabled = true → n.behavior.computes = true → ∀ trigger reading r,
    n.behavior.react ((n.view trigger reading).withInputs (g.fed i n)) = .ok r →
    List.Forall₂ (fun a a' => Value.same a a' = true) n.ports.outputs r.outputs

/-- A node that shows the result for its inputs would show the same after another evaluation. -/
theorem Node.Current.outputs_of_react {n : Node} (h : n.Current) (henabled : n.enabled = true)
    (hcomputes : n.behavior.computes = true) {trigger : Trigger} {reading : Reading}
    {r : Reaction Behavior} (hreact : n.behavior.react (n.view trigger reading) = .ok r) :
    r.outputs = n.ports.outputs := by
  cases hresult : n.behavior.result? n.ports.inputAt with
  | some value =>
    have hok := Behavior.react_of_result? (v := n.view trigger reading) hresult
    cases hok.symm.trans hreact
    exact (h henabled value hresult).symm
  | none =>
    rcases Behavior.react_of_result?_eq_none (v := n.view trigger reading) hcomputes hresult with
      hkeep | ⟨e, herror⟩
    · cases hkeep.symm.trans hreact
      rfl
    · cases herror.symm.trans hreact

namespace Graph

variable {g : Graph} {i : Nat} {n : Node}

theorem same_fed (hg : g.Coherent) (hn : g.nodes[i]? = some n)
    (hsole : ∀ l ∈ g.links, l.target.node = i → g.Sole l) (port : Nat) :
    (n.ports.inputAt port).same ((g.fed i n).getD port .null) = true := by
  have hinput : g.inputAt ⟨i, port⟩ = n.ports.inputAt port := inputAt_eq (p := ⟨i, port⟩) hn
  by_cases hport : port < n.ports.inputs.length
  · rw [fed, List.getD_eq_getElem?_getD, List.getElem?_map, List.getElem?_range hport,
      Option.map_some, Option.getD_some, ← hinput]
    cases hdriver : g.driver? ⟨i, port⟩ with
    | some source =>
      have hmem := mem_links_of_driver? hdriver
      exact hg.wire ⟨source, ⟨i, port⟩⟩ (hsole _ hmem rfl)
    | none =>
      rw [hg.unlinked _ (ne_of_driver?_eq_none hdriver)]
      rfl
  · -- a port that does not exist holds `null` in either case
    have hlength : (g.fed i n).length ≤ port := by simpa [fed] using hport
    rw [Ports.inputAt, List.getD_eq_default _ _ (Nat.le_of_not_lt hport),
      List.getD_eq_default _ _ hlength]
    rfl

theorem upToDate (hg : g.Coherent) (hcurrent : g.Current) (hn : g.nodes[i]? = some n)
    (hsole : ∀ l ∈ g.links, l.target.node = i → g.Sole l) : g.UpToDate i n := by
  have hanswer : ∀ trigger reading, SameAnswer (n.behavior.react (n.view trigger reading))
      (n.behavior.react ((n.view trigger reading).withInputs (g.fed i n))) :=
    fun trigger reading => Behavior.react_same (v := n.view trigger reading) (.refl n.behavior)
      (same_fed hg hn hsole)
  refine ⟨hanswer, fun henabled hcomputes trigger reading r' hr' => ?_⟩
  -- on the inputs it holds, the node would answer with the outputs it shows
  have hsame := hanswer trigger reading
  cases hr : n.behavior.react (n.view trigger reading) with
  | error e =>
    rw [hr, hr'] at hsame
    cases hsame
  | ok r =>
    rw [hr, hr'] at hsame
    cases hsame with
    | ok hsame =>
      rw [← (hcurrent i n hn).outputs_of_react henabled hcomputes hr]
      exact hsame.outputs

end Graph

/-! ### Nothing is hidden -/

namespace Engine

variable {H : Type} [Host H]

/-- All nodes of running graphs show the results for their inputs. -/
theorem Reachable.current {e : Engine H} (h : Reachable e) :
    e.AllRunners fun _ r => r.graph.Current := by
  intro i r hr
  obtain ⟨c, s, rfl⟩ := Session.exists_of_reachable h hr
  exact (current_install s.before c).run
    (fun _ => Runner.kept_nodes fun hstep h => h.step hstep) s.not_install i r hr

/-- What is left out as unchanged affects no node: a value of a signal whose cast an input bridge
shows already, a value that an input holds already, and an output that an evaluation does not name
as changed. -/
structure OmitsUnchanged (H : Type) [Host H] : Prop where
  inject : ∀ (ctx : LoadContext) (r : Runner) (w : World H) (i : Nat) (value : Value) (n : Node)
    (bridge : InputBridge), r.graph.nodes[i]? = some n → n.enabled = true →
    n.behavior.inputBridge? = some bridge →
    r.inject ctx w i value = r.pass ctx
      ⟨r.graph.replace i (n.showing (bridge.cast.apply value)), w⟩ [⟨i, 0⟩] ∨
    r.inject ctx w i value = ({ r with lastSteps := 0 }, w) ∧
      ∀ b : Behavior, b.Unaffected (n.ports.outputAt 0) (bridge.cast.apply value)
  deliver : ∀ (ctx : LoadContext) (s : Stage H) (value : Value) (target : PortRef) (n : Node),
    s.graph.nodes[target.node]? = some n → n.enabled = true →
    s.deliver ctx value target = Stage.evaluate ctx
      ⟨s.graph.replace target.node (n.receive target.port value), s.world⟩ target.node .inputs ∨
    s.deliver ctx value target = (s, []) ∧
      ∀ b : Behavior, b.Unaffected (n.ports.inputAt target.port) value
  evaluate : ∀ (ctx : LoadContext) (s : Stage H) (i : Nat) (trigger : Trigger), s.graph.Sound →
    ∀ p, p ∈ (s.evaluate ctx i trigger).2 ∨
      ∀ b : Behavior,
        b.Unaffected (s.graph.outputAt p) ((s.evaluate ctx i trigger).1.graph.outputAt p)

theorem omitsUnchanged (H : Type) [Host H] : OmitsUnchanged H where
  inject ctx r w i value n bridge hn henabled hbridge := by
    have ho := Runner.inject_outcome ctx r w i value
    generalize r.inject ctx w i value = o at ho ⊢
    cases ho with
    | ignored hnone => cases (hnone n hn henabled).symm.trans hbridge
    | unchanged hn' _ hbridge' hsame =>
      cases hn'.symm.trans hn
      cases hbridge'.symm.trans hbridge
      exact .inr ⟨rfl, fun b => b.unaffected_of_same hsame⟩
    | shown hn' _ hbridge' =>
      cases hn'.symm.trans hn
      cases hbridge'.symm.trans hbridge
      exact .inl rfl
  deliver ctx s value target n hn henabled := by
    rw [Stage.deliver_eq hn, if_pos henabled]
    split
    · next hsame => exact .inr ⟨rfl, fun b => b.unaffected_of_same hsame⟩
    · exact .inl rfl
  evaluate ctx s i trigger hs p := by
    rcases (Stage.evaluate_outcome ctx s i trigger).outputAt_same hs p with hsame | hchanged
    · exact .inr fun b => b.unaffected_of_same (Value.same_symm hsame)
    · exact .inl hchanged

/-- Change detection is sound. The equality that decides is a congruence, no node depends on which
of two values that are the same stands at an input, and so nothing that is left out affects any
node. In every state of every run, while no pass of a running graph has been cut short since the
load, a node whose inputs have one source each answers as it would on the present outputs of its
sources. -/
theorem changes_seen (H : Type) [Host H] :
    Value.Congruence (fun a a' => a.same a' = true) ∧
    (∀ (b : Behavior) (a a' : Value), a.same a' = true → b.Unaffected a a') ∧
    OmitsUnchanged H ∧
    ∀ e : Engine H, Reachable e → ∀ (i j : Nat) (r : Runner) (n : Node),
      e.runners[i]? = some r → r.truncatedPasses = 0 → r.graph.nodes[j]? = some n →
      (∀ l ∈ r.graph.links, l.target.node = j → r.graph.Sole l) → r.graph.UpToDate j n := by
  refine ⟨Value.congruence_same, fun b a a' h => b.unaffected_of_same h, omitsUnchanged H, ?_⟩
  intro e he i j r n hr hzero hn hsole
  exact Graph.upToDate ((he.coherent i r hr).coherent hzero) (he.current i r hr) hn hsole

/-- A signal is multiplied by nothing, that is by zero, and the product is compared with zero. -/
def vanishing : Configuration :=
  { graphs := [{
      id := "g"
      nodes := [{ id := "a", typeName := "dp_in", params := [("dp", .str "x")] },
        { id := "b", typeName := "mul" },
        { id := "c", typeName := "compare", params := [("op", .str "eq"), ("value", .int 0)] }]
      links := [⟨⟨"a", "out"⟩, ⟨"b", "a"⟩⟩, ⟨⟨"b", "out"⟩, ⟨"c", "a"⟩⟩] }] }

/-- The graph after the signal has changed its sign. -/
def vanishingEngine : Engine MemoryHost :=
  (new default { start := default }).run [.install vanishing, .post (.change ⟨"x", .num 1.0⟩),
    .turn, .post (.change ⟨"x", .num (-1.0)⟩), .turn]

/-- The product has become a negative zero, and the comparison holds a positive one. It answers as
it would on the negative zero. -/
theorem changes_seen_vanishing : ∃ r n, vanishingEngine.runners[0]? = some r ∧
    r.graph.nodes[2]? = some n ∧ (n.ports.inputAt 0).text = "0" ∧
    (r.graph.outputAt ⟨1, 0⟩).text = "-0" ∧ n.behavior.Unaffected (n.ports.inputAt 0)
      (r.graph.outputAt ⟨1, 0⟩) ∧ r.graph.UpToDate 2 n := by
  have hreachable : Reachable vanishingEngine := (Reachable.fresh (fresh_new _ rfl)).run _
  have hrun : vanishingEngine.runners[0]?.any (fun r => r.truncatedPasses == 0 &&
      r.graph.nodes[2]?.any (fun n => (n.ports.inputAt 0).text == "0" &&
        (r.graph.outputAt ⟨1, 0⟩).text == "-0" &&
        (n.ports.inputAt 0).same (r.graph.outputAt ⟨1, 0⟩) &&
        decide (∀ l ∈ r.graph.links, l.target.node = 2 → r.graph.Sole l))) = true := by
    decide +kernel
  obtain ⟨r, hr, hrun⟩ := Option.any_eq_true _ _ |>.1 hrun
  rw [Bool.and_eq_true, beq_iff_eq] at hrun
  obtain ⟨hzero, hrun⟩ := hrun
  obtain ⟨n, hn, hrun⟩ := Option.any_eq_true _ _ |>.1 hrun
  simp only [Bool.and_eq_true, beq_iff_eq, decide_eq_true_eq] at hrun
  obtain ⟨⟨⟨hheld, hpresent⟩, hsame⟩, hsole⟩ := hrun
  obtain ⟨-, hunaffected, -, hupToDate⟩ := changes_seen MemoryHost
  exact ⟨r, n, hr, hn, hheld, hpresent, hunaffected _ _ _ hsame,
    hupToDate _ hreachable 0 2 r n hr hzero hn hsole⟩

end Engine

end SignalGraph
