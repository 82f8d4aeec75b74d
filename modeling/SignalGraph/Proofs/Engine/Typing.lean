import SignalGraph.Proofs.Engine.Computing
import SignalGraph.Proofs.Engine.Primed
import SignalGraph.Proofs.Node.Typing

/-!
# The kinds of outputs in a run

In every state after a load, each output of an enabled node is of the kind that its type promises,
and every node has as many inputs and outputs as its type declares (`Engine.outputs_typed`). This is
so after evaluations that fail and in passes that are cut short.
-/

namespace SignalGraph

namespace Engine

variable {H : Type} [Host H]

/-- Whatever happens to the running graphs after a load, each node is that of the configuration,
with the ports of its type, and if it is enabled, every output shows what its type promises. -/
theorem outputs_typed (e : Engine H) (c : Configuration) {as : List (Action H)}
    (has : ∀ a ∈ as, ∀ c, a ≠ .install c) {i j : Nat} {r : Runner} {n : Node}
    (hr : (e.run (.install c :: as)).runners[i]? = some r) (hn : r.graph.nodes[j]? = some n) :
    (∃ g n₀, (buildGraphs [] c.graphs).1[i]? = some g ∧ g.nodes[j]? = some n₀ ∧
      n.plan = n₀.plan) ∧
    n.ports.inputs.length = n.ports.type.inputs.length ∧
    n.ports.outputs.length = n.ports.type.outputs.length ∧
    (n.enabled = true → ∀ value ∈ n.ports.outputs,
      (n.ports.type.outputKind n.behavior.cast).Admits value) := by
  obtain ⟨g, n₀, hg, hn₀, hfresh, hlives⟩ := lives_of_run e c has hr hn
  have hfits := hlives.fits hfresh.fits
  obtain ⟨p, hp⟩ := hfresh.exists_params
  have hcount : n.behavior.outputCount = n.ports.type.outputs.length := by
    rw [hlives.type_eq, ← Behavior.outputCount_ofParams hp, ← Behavior.outputCount_parameters,
      hlives.parameters_eq, Behavior.outputCount_parameters]
  have hkind : n.behavior.outputKind = n.ports.type.outputKind n.behavior.cast := by
    rw [Node.outputKind_of_parameters_eq hlives.parameters_eq, Behavior.outputKind_ofParams hp,
      hlives.type_eq, ← Behavior.cast_parameters, ← Behavior.cast_parameters n.behavior,
      hlives.parameters_eq]
  refine ⟨⟨g, n₀, hg, hn₀, hlives.plan_eq⟩, hfits.inputs, hfits.outputs.trans hcount, ?_⟩
  intro henabled
  rw [← hkind]
  refine hlives.admits hfresh (hlives.enabled_eq.symm.trans henabled) fun hbridge => ?_
  exact history_ne_nil e c has hr hn henabled (hlives.inputBridge?_eq.trans hbridge)

/-- A division by zero feeds a delay. -/
def dividing : Configuration :=
  { graphs := [{
      id := "g"
      nodes := [{ id := "z", typeName := "const", params := [("value", .int 0)] },
        { id := "q", typeName := "div" }, { id := "d", typeName := "delay_on" }]
      links := [⟨⟨"z", "out"⟩, ⟨"q", "a"⟩⟩, ⟨⟨"z", "out"⟩, ⟨"q", "b"⟩⟩,
        ⟨⟨"q", "out"⟩, ⟨"d", "in"⟩⟩] }] }

/-- The division fails and shows `null`, and the delay has settled its output all the same. -/
theorem outputs_typed_dividing : ∃ (r : Runner) (q d : Node),
    (hasty.run [.install dividing, .turn]).runners[0]? = some r ∧
    r.graph.nodes[1]? = some q ∧ r.graph.nodes[2]? = some d ∧
    q.ports.type = .div ∧ d.ports.type = .delayOn ∧
    (∀ value ∈ q.ports.outputs, OutputKind.finite.Admits value) ∧
    d.ports.outputs.length = 1 ∧ ∀ value ∈ d.ports.outputs, ∃ b, value = .bool b := by
  have hrun : (hasty.run [.install dividing, .turn]).runners[0]?.any (fun (r : Runner) =>
      r.graph.nodes[1]?.any (fun (q : Node) => q.enabled && q.ports.type == .div) &&
      r.graph.nodes[2]?.any (fun (d : Node) => d.enabled && d.ports.type == .delayOn)) = true := by
    decide +kernel
  obtain ⟨r, hr, hnodes⟩ := Option.any_eq_true _ _ |>.1 hrun
  rw [Bool.and_eq_true] at hnodes
  obtain ⟨q, hq, hq'⟩ := Option.any_eq_true _ _ |>.1 hnodes.1
  obtain ⟨d, hd, hd'⟩ := Option.any_eq_true _ _ |>.1 hnodes.2
  rw [Bool.and_eq_true, beq_iff_eq] at hq' hd'
  have has : ∀ a ∈ [Action.turn (H := MemoryHost)], ∀ c, a ≠ .install c := by simp
  obtain ⟨-, -, -, hquotient⟩ := outputs_typed hasty dividing has hr hq
  obtain ⟨-, -, hlength, hdelay⟩ := outputs_typed hasty dividing has hr hd
  rw [hd'.2] at hlength
  have hquotient := hquotient hq'.1
  have hdelay := hdelay hd'.1
  rw [hq'.2] at hquotient
  rw [hd'.2] at hdelay
  exact ⟨r, q, d, hr, hq, hd, hq'.2, hd'.2, hquotient, hlength, hdelay⟩

end Engine

end SignalGraph
