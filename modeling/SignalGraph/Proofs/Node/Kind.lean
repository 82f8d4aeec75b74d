import SignalGraph.Proofs.Node.Reaction

/-!
# Kinds of nodes

The behaviour of a node tells its type (`Behavior.counter_of_ofParams` and the like), and so do the
parameters in it, which never change (`Behavior.exists_counter` and the like).
-/

namespace SignalGraph

theorem exists_of_bind_eq_ok {ε α β : Type} {x : Except ε α} {f : α → Except ε β} {b : β}
    (h : x >>= f = .ok b) : ∃ a, x = .ok a ∧ f a = .ok b := by
  cases x with
  | error e => cases h
  | ok a => exact ⟨a, rfl, h⟩

namespace Behavior

variable {ty : NodeType} {p : Params}

theorem impulseCounter_of_ofParams {c : ImpulseCounter}
    (h : ofParams ty p = .ok (.impulseCounter c)) :
    ty = .impulseCounter ∧ ImpulseCounter.ofParams p = .ok c := by
  cases builds_of_ofParams h with
  | impulseCounter hbuilt => exact ⟨rfl, hbuilt⟩

theorem counter_of_ofParams {c : Counter} (h : ofParams ty p = .ok (.counter c)) :
    ty = .counter ∧ Counter.ofParams p = .ok c := by
  cases builds_of_ofParams h with
  | counter hbuilt => exact ⟨rfl, hbuilt⟩

theorem outputBridge_of_ofParams {b : OutputBridge} (h : ofParams ty p = .ok (.outputBridge b)) :
    ty = .dpOut ∧ OutputBridge.ofParams p = .ok b := by
  cases builds_of_ofParams h with
  | dpOut hbuilt => exact ⟨rfl, hbuilt⟩

/-! ### The behaviour that parameters belong to -/

/-- A behaviour with the parameters of an impulse counter is one. -/
theorem exists_impulseCounter {b : Behavior} {c : ImpulseCounter}
    (h : b.parameters = parameters (.impulseCounter c)) : ∃ c₀, b = .impulseCounter c₀ := by
  cases b with
  | impulseCounter c₀ => exact ⟨c₀, rfl⟩
  | _ => cases h

theorem exists_counter {b : Behavior} {c : Counter}
    (h : b.parameters = parameters (.counter c)) : ∃ c₀, b = .counter c₀ := by
  cases b with
  | counter c₀ => exact ⟨c₀, rfl⟩
  | _ => cases h

theorem exists_outputBridge {b : Behavior} {o : OutputBridge}
    (h : b.parameters = parameters (.outputBridge o)) : ∃ o₀, b = .outputBridge o₀ := by
  cases b with
  | outputBridge o₀ => exact ⟨o₀, rfl⟩
  | _ => cases h

end Behavior

end SignalGraph
