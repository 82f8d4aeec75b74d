import SignalGraph.Proofs.Graph.Built
import SignalGraph.Proofs.Node.Combinational
import SignalGraph.Proofs.Node.History

/-!
# Nodes that compute

Constants, gates, comparisons, limits, operations and scales compute their output from their inputs
(`Behavior.result?`). Operations and scales do not always have a result, and then keep the output
they have. So such a node shows the last result that its inputs have had (`Node.Lives.outputs_eq`),
and it shows the result for its present inputs as soon as it has been evaluated once
(`Node.Current.step`).
-/

namespace SignalGraph

/-! ### Results -/

/-- The operation has a finite result for two numbers, and does not divide by zero. -/
def Operation.Defined (o : Operation) (x y : Float) : Prop :=
  ¬(o = .div ∧ (y == 0.0) = true) ∧ (o.result x y).isFinite = true

theorem Operation.apply_of_defined {o : Operation} {x y : Float} (h : o.Defined x y) :
    o.apply x y = .ok (o.result x y) := by
  rw [apply, if_neg h.1, if_pos h.2]

/-- The types whose nodes compute their output from their inputs. -/
def NodeType.computes : NodeType → Bool
  | .const | .not | .and | .or | .xor | .compare | .add | .sub | .mul | .div | .min | .max | .clamp
  | .scale => true
  | _ => false

namespace Behavior

/-- Whether a node with this behaviour computes its output from its inputs. -/
def computes : Behavior → Bool
  | .const _ | .invert | .gate _ | .comparison _ | .clamp _ | .operation _ | .scale _ => true
  | _ => false

/-- What the node computes from its inputs, if they have a result. -/
def result? (b : Behavior) (input : Nat → Value) : Option Value :=
  match b with
  | .operation o => (o.output (input 0) (input 1)).toOption
  | .scale s => s.output? (input 0)
  | _ => b.combine? input

variable {b : Behavior} {v : View}

theorem result?_of_combine? {input : Nat → Value} {value : Value}
    (h : b.combine? input = some value) : b.result? input = some value := by
  cases b with
  | operation | scale => cases h
  | _ => exact h

theorem computes_parameters (b : Behavior) : b.parameters.computes = b.computes := by
  cases b <;> rfl

theorem computes_ofParams {ty : NodeType} {p : Params} (h : ofParams ty p = .ok b) :
    b.computes = ty.computes := by
  cases builds_of_ofParams h <;> rfl

theorem result?_of_defined {o : Operation} {input : Nat → Value}
    (h : o.Defined ((input 0).numberOr 0.0) ((input 1).numberOr 0.0)) :
    result? (.operation o) input =
      some (.num (o.result ((input 0).numberOr 0.0) ((input 1).numberOr 0.0))) := by
  rw [result?, Operation.output, Operation.apply_of_defined h]
  rfl

theorem result?_parameters (b : Behavior) (input : Nat → Value) :
    b.parameters.result? input = b.result? input := by
  cases b <;> rfl

/-- A node whose inputs have a result sets its output to it. -/
theorem react_of_result? {value : Value} (h : b.result? v.ports.inputAt = some value) :
    b.react v = .ok (.out b value) := by
  cases b with
  | operation o =>
    rw [result?] at h
    rw [react]
    show (o.output (v.ports.inputAt 0) (v.ports.inputAt 1)).map _ = _
    cases houtput : o.output (v.ports.inputAt 0) (v.ports.inputAt 1) with
    | error e =>
      rw [houtput] at h
      cases h
    | ok x =>
      rw [houtput] at h
      cases h
      rfl
  | scale s =>
    have houtput : s.output? (v.input 0) = some value := h
    rw [react, houtput]
  | _ => exact react_of_combine? h

/-- A node that computes and whose inputs have no result keeps its output. -/
theorem react_of_result?_eq_none (hcomputes : b.computes = true)
    (h : b.result? v.ports.inputAt = none) :
    b.react v = .ok (.keep b v) ∨ ∃ e, b.react v = .error e := by
  cases b with
  | operation o =>
    right
    rw [result?] at h
    rw [react]
    show ∃ e, (o.output (v.ports.inputAt 0) (v.ports.inputAt 1)).map _ = _
    cases houtput : o.output (v.ports.inputAt 0) (v.ports.inputAt 1) with
    | error e => exact ⟨e, rfl⟩
    | ok x =>
      rw [houtput] at h
      cases h
  | scale s =>
    left
    have houtput : s.output? (v.input 0) = none := h
    rw [react, houtput]
  | const | invert | gate | comparison | clamp => cases h
  | _ => cases hcomputes

theorem inputBridge?_of_result? {input : Nat → Value} {value : Value}
    (h : b.result? input = some value) : b.inputBridge? = none := by
  cases b with
  | inputBridge => cases h
  | _ => rfl

theorem inputBridge?_of_computes (h : b.computes = true) : b.inputBridge? = none := by
  cases b with
  | inputBridge => cases h
  | _ => rfl

/-- A node that computes has one output. -/
theorem outputCount_of_computes (h : b.computes = true) : b.outputCount = 1 := by
  cases b with
  | const | invert | gate | comparison | clamp | operation | scale => rfl
  | _ => cases h

/-- A node that computes has no private state. -/
theorem eq_of_parameters_eq {b b' : Behavior} (h : b'.parameters = b.parameters)
    (hcomputes : b.computes = true) : b' = b := by
  cases b with
  | const | invert | gate | comparison | clamp | operation | scale =>
    cases b' <;> simp_all [parameters]
  | _ => cases hcomputes

end Behavior

/-! ### Present results -/

namespace Node

/-- If the present inputs of the node have a result, the node shows it. -/
def Current (n : Node) : Prop :=
  n.enabled = true → ∀ value, n.behavior.result? n.ports.inputAt = some value →
    n.ports.outputs = [value]

variable {n n' : Node}

/-- A node that has reacted shows the result for its inputs. -/
theorem current_after {v : View} {r : Reaction Behavior} {timers : ArmedTimers}
    (hreact : n.behavior.react v = .ok r) (hv : v.ports.inputs = n.ports.inputs) :
    (n.after r timers).Current := by
  intro _ value hvalue
  have hinput : v.ports.inputAt = n.ports.inputAt := by
    ext port : 1
    rw [Ports.inputAt, Ports.inputAt, hv]
  -- the reaction has changed the private state at most, which the result does not depend on
  have hresult : n.behavior.result? v.ports.inputAt = some value := by
    rw [← Behavior.result?_parameters, ← (Behavior.kept_of_react hreact).parameters_eq,
      Behavior.result?_parameters, hinput]
    exact hvalue
  rw [Behavior.react_of_result? hresult] at hreact
  cases hreact
  rfl

/-- An evaluation fails only if the inputs have no result. -/
theorem current_of_react_eq_error {trigger : Trigger} {reading : Reading} {e : EvalError}
    (hreact : n.behavior.react (n.view trigger reading) = .error e) : n.Current := by
  intro _ value hvalue
  have hok := Behavior.react_of_result? (v := n.view trigger reading) hvalue
  cases hok.symm.trans hreact

theorem current_of_inputBridge? {b : InputBridge} (hbridge : n.behavior.inputBridge? = some b) :
    n.Current := by
  intro _ value hvalue
  cases (Behavior.inputBridge?_of_result? hvalue).symm.trans hbridge

theorem Current.step (h : n.Current) (hstep : n.Step n') : n'.Current := by
  cases hstep with
  | inject _ hbridge => exact current_of_inputBridge? (n := n.showing _) hbridge
  | work hwork =>
    cases hwork with
    | evaluate _ hreact => exact current_after hreact rfl
    | deliver _ hreact => exact current_after (n := n.receive _ _) hreact rfl
    | fail _ hreact => exact current_of_react_eq_error hreact
    | store hdisabled =>
      intro henabled
      cases hdisabled.symm.trans henabled
    | release => exact h

/-- A node that shows the result for its inputs is settled. -/
theorem Current.settled (h : n.Current) : n.Settled :=
  fun henabled value hvalue => h henabled value (Behavior.result?_of_combine? hvalue)

end Node

/-! ### Results over time -/

/-- What an episode makes of the inputs of the node. -/
def Episode.inputsAfter (ep : Episode) (inputs : List Value) : List Value :=
  ep.stored?.elim inputs fun entry => inputs.set entry.1 entry.2

/-- The inputs that a node has after each of these episodes, in order. -/
def inputsSeen (inputs : List Value) : List Episode → List (List Value)
  | [] => []
  | ep :: eps => ep.inputsAfter inputs :: inputsSeen (ep.inputsAfter inputs) eps

theorem inputsSeen_concat (inputs : List Value) (eps : List Episode) (ep : Episode) :
    inputsSeen inputs (eps ++ [ep]) = inputsSeen inputs eps ++
      [ep.inputsAfter (eps.foldl (fun inputs ep => ep.inputsAfter inputs) inputs)] := by
  induction eps generalizing inputs with
  | nil => rfl
  | cons first rest ih =>
    rw [List.cons_append, inputsSeen, ih]
    rfl

/-- The results that the inputs of a node have had in these episodes, in order. -/
def Behavior.results (b : Behavior) (inputs : List Value) (eps : List Episode) : List Value :=
  (inputsSeen inputs eps).filterMap fun inputs => b.result? fun port => inputs.getD port .null

namespace Node

variable {n₀ n n' : Node} {eps : List Episode} {ep : Episode}

/-- The inputs follow the values that are stored there. -/
theorem Lives.inputs_eq (h : n₀.Lives eps n) :
    n.ports.inputs = eps.foldl (fun inputs ep => ep.inputsAfter inputs) n₀.ports.inputs := by
  induction h with
  | nil => rfl
  | snoc _ hundergoes ih =>
    rw [hundergoes.inputs_eq, ih, List.foldl_concat]
    rfl

/-- A node that computes and is evaluated shows the result for its inputs if they have one, and
what it has shown otherwise. It asks for nothing. -/
theorem Evaluates.outputs_of_computes {trigger : Trigger} {time : Nat} {reading : Reading}
    {commands : List Command} (h : n.Evaluates trigger time reading commands n')
    (hcomputes : n.behavior.computes = true) :
    n'.behavior = n.behavior ∧ commands = [] ∧ n'.ports.outputs =
      ((n.behavior.result? n.ports.inputAt).map fun value => [value]).getD n.ports.outputs := by
  cases hresult : n.behavior.result? n.ports.inputAt with
  | some value =>
    have hok := Behavior.react_of_result? (v := n.view trigger reading) hresult
    cases h with
    | failed hreact => cases hok.symm.trans hreact
    | reacted hreact =>
      cases hok.symm.trans hreact
      exact ⟨rfl, rfl, rfl⟩
  | none =>
    have hkept := Behavior.react_of_result?_eq_none (v := n.view trigger reading) hcomputes hresult
    cases h with
    | failed => exact ⟨rfl, rfl, rfl⟩
    | reacted hreact =>
      rcases hkept with hkeep | ⟨e, herror⟩
      · cases hkeep.symm.trans hreact
        exact ⟨rfl, rfl, rfl⟩
      · cases herror.symm.trans hreact

/-- Every episode of a node that computes is an evaluation on the inputs it has then. -/
theorem Undergoes.outputs_of_computes (h : n.Undergoes ep n') (henabled : n.enabled = true)
    (hcomputes : n.behavior.computes = true) : n'.behavior = n.behavior ∧ n'.ports.outputs =
      ((n.behavior.result? n'.ports.inputAt).map fun value => [value]).getD n.ports.outputs := by
  have hevaluated : ∀ {m : Node} {trigger : Trigger} {time : Nat} {reading : Reading}
      {commands : List Command}, m.Evaluates trigger time reading commands n' →
      m.behavior = n.behavior → m.ports.outputs = n.ports.outputs →
      n'.behavior = n.behavior ∧ n'.ports.outputs =
        ((n.behavior.result? n'.ports.inputAt).map fun value => [value]).getD n.ports.outputs := by
    intro m trigger time reading commands hevaluates hbehavior houtputs
    rw [← hbehavior] at hcomputes ⊢
    have hinput : n'.ports.inputAt = m.ports.inputAt := by
      ext port : 1
      rw [Ports.inputAt, Ports.inputAt, hevaluates.inputs_eq]
    obtain ⟨hkept, -, hshown⟩ := hevaluates.outputs_of_computes hcomputes
    rw [hinput, ← houtputs]
    exact ⟨hkept, hshown⟩
  cases h with
  | stored hdisabled | dropped hdisabled => cases henabled.symm.trans hdisabled
  | delivered _ _ hevaluates | primed _ _ hevaluates | fired _ _ _ hevaluates =>
    exact hevaluated hevaluates rfl rfl
  | received _ hsome => cases (Behavior.inputBridge?_of_computes hcomputes).symm.trans hsome

/-- A node that computes shows the last result that its inputs have had. -/
theorem Lives.outputs_eq (h : n₀.Lives eps n) (henabled : n₀.enabled = true)
    (hcomputes : n₀.behavior.computes = true) : n.ports.outputs =
      ((n₀.behavior.results n₀.ports.inputs eps).getLast?.map fun value => [value]).getD
        n₀.ports.outputs := by
  induction h with
  | nil => rfl
  | @snoc eps n n' ep hlives hundergoes ih =>
    have hbehavior : n.behavior = n₀.behavior :=
      Behavior.eq_of_parameters_eq hlives.parameters_eq hcomputes
    have hinput : n'.ports.inputAt = fun port => List.getD (ep.inputsAfter
        (eps.foldl (fun inputs ep => ep.inputsAfter inputs) n₀.ports.inputs)) port .null := by
      ext port : 1
      rw [Ports.inputAt, hundergoes.inputs_eq, hlives.inputs_eq]
      rfl
    obtain ⟨-, hshown⟩ := hundergoes.outputs_of_computes (hlives.enabled_eq.trans henabled)
      (hbehavior ▸ hcomputes)
    rw [hshown, hbehavior, hinput, Behavior.results, inputsSeen_concat, filterMap_concat]
    cases n₀.behavior.result? fun port => List.getD (ep.inputsAfter
        (eps.foldl (fun inputs ep => ep.inputsAfter inputs) n₀.ports.inputs)) port .null with
    | none =>
      rw [Option.toList_none, List.append_nil]
      exact ih
    | some value =>
      rw [Option.toList_some, List.getLast?_concat]
      rfl

/-! ### What a node shows -/

/-- The last result that the inputs of the node have had in these episodes, `null` if they have had
none. -/
def lastResult (n : Node) (eps : List Episode) : Value :=
  (n.behavior.results (Ports.new n.ports.type).inputs eps).getLast?.getD .null

/-- The node shows what it computes from its present inputs, and if they have no result, the last
one that there was in these episodes. -/
def Computed (n : Node) (eps : List Episode) : Prop :=
  match n.behavior with
  | .const value => n.ports.outputs = [value]
  | .invert => n.ports.outputs = [invert (n.ports.inputAt 0)]
  | .gate g => n.ports.outputs = [g.output (n.ports.inputAt 0) (n.ports.inputAt 1)]
  | .comparison c => n.ports.outputs = [c.output (n.ports.inputAt 0) (n.ports.inputAt 1)]
  | .clamp c => n.ports.outputs = [c.output (n.ports.inputAt 0)]
  | .operation o =>
    let x := (n.ports.inputAt 0).numberOr 0.0
    let y := (n.ports.inputAt 1).numberOr 0.0
    (o.Defined x y → n.ports.outputs = [.num (o.result x y)]) ∧
      (¬o.Defined x y → n.ports.outputs = [n.lastResult eps])
  | .scale s =>
    match (n.ports.inputAt 0).number? with
    | some x => n.ports.outputs = [.num (s.apply x)]
    | none => n.ports.outputs = [n.lastResult eps]
  | _ => True

/-- A node that computes shows the last result that there was since it was new. -/
theorem Lives.outputs_eq_lastResult (h : n₀.Lives eps n) (hfresh : n₀.Fresh)
    (henabled : n₀.enabled = true) (hcomputes : n₀.behavior.computes = true) :
    n.ports.outputs = [n.lastResult eps] := by
  have hbehavior : n.behavior = n₀.behavior :=
    Behavior.eq_of_parameters_eq h.parameters_eq hcomputes
  have htype : n.ports.type = n₀.ports.type := congrArg Plan.type h.plan_eq
  have hinputs : (Ports.new n₀.ports.type).inputs = n₀.ports.inputs := by rw [← hfresh.ports]
  rw [h.outputs_eq henabled hcomputes, lastResult, hbehavior, htype, hinputs]
  cases (n₀.behavior.results n₀.ports.inputs eps).getLast? with
  | some value => rfl
  | none =>
    -- without a result the only output is still `null`
    have hlength := hfresh.fits.outputs
    rw [Behavior.outputCount_of_computes hcomputes] at hlength
    obtain ⟨value, hvalue⟩ := List.length_eq_one_iff.1 hlength
    have hnull : n₀.ports.outputAt 0 = .null := hfresh.outputAt_eq 0
    rw [Ports.outputAt, hvalue] at hnull
    rw [Option.map_none, Option.getD_none, hvalue]
    exact congrArg (fun value => [value]) hnull

theorem Lives.computed (h : n₀.Lives eps n) (hfresh : n₀.Fresh) (henabled : n₀.enabled = true)
    (hcurrent : n.Current) : n.Computed eps := by
  have hpresent := hcurrent (h.enabled_eq.trans henabled)
  -- only operations and scales can fail to have a result, and show the last one then
  have hlast : n.behavior.computes = true → n.ports.outputs = [n.lastResult eps] := by
    intro hcomputes
    have hbehavior := Behavior.eq_of_parameters_eq h.parameters_eq.symm hcomputes
    exact h.outputs_eq_lastResult hfresh henabled (hbehavior ▸ hcomputes)
  unfold Computed
  cases hb : n.behavior with
  | const | invert | gate | comparison | clamp =>
    rw [hb] at hpresent
    exact hpresent _ rfl
  | operation o =>
    rw [hb] at hpresent hlast
    exact ⟨fun hdefined => hpresent _ (Behavior.result?_of_defined hdefined), fun _ => hlast rfl⟩
  | scale s =>
    rw [hb] at hpresent hlast
    dsimp only
    split
    · next x hx =>
      refine hpresent _ ?_
      rw [Behavior.result?, Scale.output?, hx, Option.map_some]
    · exact hlast rfl
  | _ => trivial

end Node

end SignalGraph
