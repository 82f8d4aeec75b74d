import SignalGraph.Proofs.Node.Bridge

/-!
# Nodes without a memory

Gates, comparisons, limits and constants give an output that is a function of their inputs alone
(`Behavior.combine?`), and the same inputs give the same output (`combine?_congr`). Such a node is
settled if it holds the value for its present inputs (`Node.Settled`). A disabled node shows
nothing, whatever happens to it (`Node.Dark.step`).
-/

namespace SignalGraph

/-! ### Outputs as functions -/

/-- The types whose nodes keep no state and read no clock, as far as their outputs go. -/
def NodeType.isCombinational : NodeType → Bool
  | .dpIn | .const | .not | .and | .or | .xor | .compare | .clamp | .dpOut => true
  | _ => false

namespace Behavior

/-- The output as a function of the inputs, if it is one. -/
def combine? (b : Behavior) (input : Nat → Value) : Option Value :=
  match b with
  | .const value => some value
  | .invert => some (SignalGraph.invert (input 0))
  | .gate g => some (g.output (input 0) (input 1))
  | .comparison c => some (c.output (input 0) (input 1))
  | .clamp c => some (c.output (input 0))
  | _ => none

theorem combine?_parameters (b : Behavior) (input : Nat → Value) :
    b.parameters.combine? input = b.combine? input := by
  cases b <;> rfl

/-- A node whose output is a function of its inputs sets it to the value of that function. -/
theorem react_of_combine? {b : Behavior} {v : View} {value : Value}
    (h : b.combine? v.ports.inputAt = some value) : b.react v = .ok (.out b value) := by
  cases b with
  | const | invert | gate | comparison | clamp =>
    cases h
    rfl
  | _ => cases h

theorem inputBridge?_of_combine? {b : Behavior} {input : Nat → Value} {value : Value}
    (h : b.combine? input = some value) : b.inputBridge? = none := by
  cases b with
  | inputBridge => cases h
  | _ => rfl

/-- Inputs that are the same give outputs that are the same. -/
theorem combine?_congr {b : Behavior} {input input' : Nat → Value} {value : Value}
    (hinput : ∀ port, (input port).same (input' port) = true)
    (h : b.combine? input = some value) :
    ∃ value', b.combine? input' = some value' ∧ value.same value' = true := by
  have hleft := hinput 0
  have hright := hinput 1
  cases b with
  | const =>
    cases h
    exact ⟨_, rfl, Value.same_refl _⟩
  | invert =>
    cases h
    exact ⟨_, rfl, invert_congr hleft⟩
  | gate g =>
    cases h
    exact ⟨_, rfl, g.output_congr hleft hright⟩
  | comparison c =>
    cases h
    exact ⟨_, rfl, c.output_congr hleft hright⟩
  | clamp c =>
    cases h
    exact ⟨_, rfl, c.output_congr hleft⟩
  | _ => cases h

/-- A combinational node is an input bridge, computes its output, or has none. -/
theorem combinational_cases {ty : NodeType} {p : Params} {b : Behavior}
    (hb : ofParams ty p = .ok b) (hty : ty.isCombinational = true) :
    (∃ bridge, b.inputBridge? = some bridge) ∨
      (∀ input, ∃ value, b.combine? input = some value) ∨ b.outputCount = 0 := by
  cases builds_of_ofParams hb with
  | dpIn => exact .inl ⟨_, rfl⟩
  | dpOut => exact .inr (.inr rfl)
  | const | not | and | or | xor | compare | clamp => exact .inr (.inl fun _ => ⟨_, rfl⟩)
  | _ => cases hty

/-- The output, given the last values of the signals and the inputs. -/
def meaning (b : Behavior) (last : String → Option Value) (input : Nat → Value) : Value :=
  match b.inputBridge? with
  | some bridge => bridge.shown (last bridge.signal)
  | none => (b.combine? input).getD .null

end Behavior

/-! ### Settled nodes -/

namespace Node

/-- If the node computes its output from its inputs, it holds the value for its present inputs. -/
def Settled (n : Node) : Prop :=
  n.enabled = true → ∀ value, n.behavior.combine? n.ports.inputAt = some value →
    n.ports.outputs = [value]

/-- If the node is disabled, it shows nothing. -/
def Dark (n : Node) : Prop :=
  n.enabled = false → ∀ port, n.ports.outputAt port = .null

variable {n n' : Node}

theorem Dark.step (h : n.Dark) (hstep : n.Step n') : n'.Dark := by
  cases hstep with
  | inject henabled =>
    intro hdisabled
    cases henabled.symm.trans hdisabled
  | work hwork =>
    cases hwork with
    | evaluate henabled | deliver henabled =>
      intro hdisabled
      cases henabled.symm.trans hdisabled
    | fail | store | release => exact h

end Node

end SignalGraph
