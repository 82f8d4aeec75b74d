import SignalGraph.Host.Memory
import SignalGraph.Proofs.Engine.Chronicle
import SignalGraph.Proofs.Engine.Refinement

/-!
# Computed outputs in a run

In every state after a load each enabled node that computes its output shows the result for the
inputs it has, and the last result that there was if these have none. This is so in a feedback loop
that never settles and after a pass that has been cut short (`Engine.computed_of_run`). An
evaluation that fails leaves everything as it was.
-/

namespace SignalGraph

variable {H : Type} [Host H]

/-- The evaluation of node `i` changes nothing and starts nothing. -/
structure Stage.Contained (ctx : LoadContext) (s : Stage H) (i : Nat) (trigger : Trigger) :
    Prop where
  evaluate_eq : s.evaluate ctx i trigger = (s, [])
  /-- No link is followed after it. -/
  runner_eq : ∀ r : Runner, r.graph = s.graph →
    r.evaluate ctx s.world i trigger = ({ r with lastSteps := 0 }, s.world)

/-- A pass that starts from no changed port does nothing. -/
theorem Runner.pass_nil (ctx : LoadContext) (r : Runner) (w : World H) :
    r.pass ctx ⟨r.graph, w⟩ [] = ({ r with lastSteps := 0 }, w) := by
  have hidle : (⟨r.graph, w⟩ : Stage H).propagate ctx ctx.settings.maxSteps (.ofSources []) =
      ⟨⟨r.graph, w⟩, ctx.settings.maxSteps, false⟩ := by
    unfold Stage.propagate
    rfl
  rw [pass, hidle]
  simp

theorem Stage.contained_of_error {ctx : LoadContext} {s : Stage H} {i : Nat} {trigger : Trigger}
    {n : Node} {error : EvalError} (hn : s.graph.nodes[i]? = some n)
    (herror : n.behavior.react (n.view trigger (s.world.reading ctx.settings)) = .error error) :
    s.Contained ctx i trigger := by
  have hfailed : s.evaluate ctx i trigger = (s, []) := by
    rw [evaluate_eq ctx s i trigger hn, herror]
  refine ⟨hfailed, fun r hr => ?_⟩
  have hstage : (⟨r.graph, s.world⟩ : Stage H) = s := by rw [hr]
  rw [Runner.evaluate, hstage, hfailed]
  dsimp only
  rw [← hstage]
  exact r.pass_nil ctx s.world

namespace Engine

/-- Whatever happens to the running graphs after a load, each enabled node is that of the
configuration, and if its type computes, it shows the result for its inputs, or the last one that
there was. An evaluation that fails changes nothing. -/
theorem computed_of_run (e : Engine H) (c : Configuration) {as : List (Action H)}
    (has : ∀ a ∈ as, ∀ c, a ≠ .install c) :
    (∀ (i j : Nat) (r : Runner) (n : Node),
      (e.run (.install c :: as)).runners[i]? = some r → r.graph.nodes[j]? = some n →
      n.enabled = true →
      (∃ g n₀, (buildGraphs [] c.graphs).1[i]? = some g ∧ g.nodes[j]? = some n₀ ∧
        n.plan = n₀.plan) ∧
      n.behavior.computes = n.ports.type.computes ∧
      n.Computed (history i j (e.chronicle (.install c :: as)))) ∧
    ∀ (ctx : LoadContext) (s : Stage H) (i : Nat) (n : Node) (trigger : Trigger)
      (error : EvalError),
      s.graph.nodes[i]? = some n →
      n.behavior.react (n.view trigger (s.world.reading ctx.settings)) = .error error →
      s.Contained ctx i trigger := by
  refine ⟨fun i j r n hr hn henabled => ?_, fun _ _ _ _ _ _ => Stage.contained_of_error⟩
  have hcurrent := (current_install e c).run
    (fun _ => Runner.kept_nodes fun hstep h => h.step hstep)
    has i r hr j n hn
  obtain ⟨g, n₀, hg, hn₀, hfresh, hlives⟩ := lives_of_run e c has hr hn
  have henabled₀ : n₀.enabled = true := hlives.enabled_eq.symm.trans henabled
  refine ⟨⟨g, n₀, hg, hn₀, hlives.plan_eq⟩, ?_, hlives.computed hfresh henabled₀ hcurrent⟩
  obtain ⟨p, hp⟩ := hfresh.exists_params
  have htype : n.ports.type = n₀.ports.type := congrArg Node.Plan.type hlives.plan_eq
  rw [htype, ← Behavior.computes_ofParams hp, ← Behavior.computes_parameters,
    hlives.parameters_eq, Behavior.computes_parameters]

/-- A negation feeds itself, and its passes are cut short. -/
def oscillating : Configuration :=
  { graphs := [{
      id := "g"
      nodes := [{ id := "a", typeName := "not" }]
      links := [⟨⟨"a", "out"⟩, ⟨"a", "in"⟩⟩] }] }

/-- An engine that follows three links in a pass. -/
def hasty : Engine MemoryHost :=
  { new default { start := default } with settings := { maxSteps := 3 } }

/-- The negation shows the opposite of its input although its pass has been cut short. -/
theorem computed_of_run_oscillating : ∃ r n,
    (hasty.run [.install oscillating]).runners[0]? = some r ∧
    r.truncatedPasses = 1 ∧ r.graph.nodes[0]? = some n ∧
    n.ports.outputs = [invert (n.ports.inputAt 0)] := by
  have hrun : (hasty.run [.install oscillating]).runners[0]?.any (fun r =>
      r.truncatedPasses == 1 && r.graph.nodes[0]?.any (fun n =>
        n.enabled && (match n.behavior with | .invert => true | _ => false))) = true := by
    decide +kernel
  obtain ⟨r, hr, hrun⟩ := Option.any_eq_true _ _ |>.1 hrun
  rw [Bool.and_eq_true, beq_iff_eq] at hrun
  obtain ⟨n, hn, hrun'⟩ := Option.any_eq_true _ _ |>.1 hrun.2
  rw [Bool.and_eq_true] at hrun'
  have hactions : ∀ a ∈ ([] : List (Action MemoryHost)), ∀ c, a ≠ .install c := by simp
  have hcomputed := ((computed_of_run _ oscillating hactions).1 0 0 r n hr hn hrun'.1).2.2
  have hinvert := hrun'.2
  split at hinvert
  · next hbehavior =>
    rw [Node.Computed, hbehavior] at hcomputed
    exact ⟨r, n, hr, hrun.1, hn, hcomputed⟩
  · cases hinvert

end Engine

end SignalGraph
