import SignalGraph.Node.Behavior

/-!
# What every reaction keeps

A reaction gives one value for each output of the node and changes nothing of the behaviour but its
private state (`Behavior.kept_of_react`). What the type of a node says about its behaviour follows
from the behaviours that can be built for each type (`Behavior.builds_of_ofParams`).
-/

namespace SignalGraph

theorem exists_of_map_eq_ok {ε α β : Type} {f : α → β} {x : Except ε α} {b : β}
    (h : x.map f = .ok b) : ∃ a, x = .ok a ∧ f a = b := by
  cases x with
  | error e => cases h
  | ok a => exact ⟨a, rfl, Except.ok.inj h⟩

theorem eq_error_of_map_eq_error {ε α β : Type} {f : α → β} {x : Except ε α} {e : ε}
    (h : x.map f = .error e) : x = .error e := by
  cases x with
  | error e' =>
    cases h
    rfl
  | ok a => cases h

/-! ### Behaviours and their types -/

/-- The behaviours that can be built for each type of node from the parameters `p`. -/
inductive NodeType.Builds (p : Params) : NodeType → Behavior → Prop
  | const : Builds p .const (.const ((p.value? "value").getD .null))
  | not : Builds p .not .invert
  | and : Builds p .and (.gate .and)
  | or : Builds p .or (.gate .or)
  | xor : Builds p .xor (.gate .xor)
  | compare {c : Comparison} (h : Comparison.ofParams p = .ok c) : Builds p .compare (.comparison c)
  | add : Builds p .add (.operation .add)
  | sub : Builds p .sub (.operation .sub)
  | mul : Builds p .mul (.operation .mul)
  | div : Builds p .div (.operation .div)
  | min : Builds p .min (.operation .min)
  | max : Builds p .max (.operation .max)
  | clamp {c : Clamp} (h : Clamp.ofParams p = .ok c) : Builds p .clamp (.clamp c)
  | scale {s : Scale} (h : Scale.ofParams p = .ok s) : Builds p .scale (.scale s)
  | edge {e : EdgeDetector} (h : EdgeDetector.ofParams p none = .ok e) : Builds p .edge (.edge e)
  | edgeRising {e : EdgeDetector} (h : EdgeDetector.ofParams p (some .rising) = .ok e) :
    Builds p .edgeRising (.edge e)
  | edgeFalling {e : EdgeDetector} (h : EdgeDetector.ofParams p (some .falling) = .ok e) :
    Builds p .edgeFalling (.edge e)
  | edgeBoth {e : EdgeDetector} (h : EdgeDetector.ofParams p (some .both) = .ok e) :
    Builds p .edgeBoth (.edge e)
  | toggle {t : Toggle} (h : Toggle.ofParams p = .ok t) : Builds p .toggle (.toggle t)
  | rs {l : SetReset} (h : SetReset.ofParams p = .ok l) : Builds p .rs (.setReset l)
  | delayOn {d : DelayOn} (h : DelayOn.ofParams p = .ok d) : Builds p .delayOn (.delayOn d)
  | delayOff {d : DelayOff} (h : DelayOff.ofParams p "delay_ms" = .ok d) :
    Builds p .delayOff (.delayOff d)
  | pulse {q : Pulse} (h : Pulse.ofParams p = .ok q) : Builds p .pulse (.pulse q)
  | staircase {s : Staircase} (h : Staircase.ofParams p = .ok s) :
    Builds p .staircase (.staircase s)
  | pulseExtend {d : DelayOff} (h : DelayOff.ofParams p "hold_ms" = .ok d) :
    Builds p .pulseExtend (.delayOff d)
  | schedule {s : WeeklySchedule} (h : WeeklySchedule.ofParams p = .ok s) :
    Builds p .schedule (.schedule s)
  | impulseCounter {c : ImpulseCounter} (h : ImpulseCounter.ofParams p = .ok c) :
    Builds p .impulseCounter (.impulseCounter c)
  | counter {c : Counter} (h : Counter.ofParams p = .ok c) : Builds p .counter (.counter c)
  | runtimeHours {m : HourMeter} (h : HourMeter.ofParams p = .ok m) :
    Builds p .runtimeHours (.hourMeter m)
  | dpIn {b : InputBridge} (h : InputBridge.ofParams p = .ok b) : Builds p .dpIn (.inputBridge b)
  | dpOut {b : OutputBridge} (h : OutputBridge.ofParams p = .ok b) :
    Builds p .dpOut (.outputBridge b)
  | scene {s : SceneTrigger} (h : SceneTrigger.ofParams p = .ok s) :
    Builds p .scene (.sceneTrigger s)

namespace Behavior

/-- Accepted parameters give one of the behaviours that can be built for the type. -/
theorem builds_of_ofParams {ty : NodeType} {p : Params} {b : Behavior} (h : ofParams ty p = .ok b) :
    ty.Builds p b := by
  cases ty with
  | const | not | and | or | xor | add | sub | mul | div | min | max =>
    cases h
    constructor
  | _ =>
    obtain ⟨x, hx, rfl⟩ := exists_of_map_eq_ok h
    constructor
    exact hx

/-- The number of outputs of a node with this behaviour. -/
def outputCount : Behavior → Nat
  | .impulseCounter _ => 2
  | .outputBridge _ | .sceneTrigger _ => 0
  | _ => 1

/-- The behaviour with its private state blanked out. -/
def parameters : Behavior → Behavior
  | .edge e => .edge { e with level := false }
  | .toggle t => .toggle { t with state := false, level := false }
  | .setReset l => .setReset { l with state := false }
  | .pulse p => .pulse { p with level := false }
  | .staircase s => .staircase { s with level := false, offLevel := false }
  | .impulseCounter c => .impulseCounter { c with count := 0, level := false, resetLevel := false }
  | .counter c =>
    .counter { c with count := 0, upLevel := false, downLevel := false, resetLevel := false }
  | .hourMeter m => .hourMeter { m with total := 0, runningSince := none, resetLevel := false }
  | .outputBridge b => .outputBridge { b with lastWrite := none, waiting := none }
  | .sceneTrigger s => .sceneTrigger { s with level := false }
  | b => b

theorem outputCount_parameters (b : Behavior) : b.parameters.outputCount = b.outputCount := by
  cases b <;> rfl

theorem inputBridge?_parameters (b : Behavior) : b.parameters.inputBridge? = b.inputBridge? := by
  cases b <;> rfl

/-- The outputs that a type of node declares are those of its behaviour. -/
theorem outputCount_ofParams {ty : NodeType} {p : Params} {b : Behavior}
    (h : ofParams ty p = .ok b) : b.outputCount = ty.outputs.length := by
  cases builds_of_ofParams h <;> rfl

/-! ### One reaction -/

/-- What a reaction `r` to the view `v` keeps of the behaviour `b`. -/
structure Kept (b : Behavior) (v : View) (r : Reaction Behavior) : Prop where
  parameters_eq : r.state.parameters = b.parameters
  length_eq : v.ports.outputs.length = b.outputCount → r.outputs.length = b.outputCount

namespace Kept

variable {b b' : Behavior} {v : View} {commands : List Command}

theorem out {value : Value} (hp : b'.parameters = b.parameters) (hc : b.outputCount = 1) :
    Kept b v (.out b' value commands) :=
  ⟨hp, fun _ => hc.symm⟩

theorem keep (hp : b'.parameters = b.parameters) : Kept b v (.keep b' v commands) :=
  ⟨hp, id⟩

end Kept

variable {b : Behavior} {v : View} {r : Reaction Behavior}

theorem kept_of_react (h : b.react v = .ok r) : Kept b v r := by
  cases b with
  | operation o =>
    obtain ⟨value, -, rfl⟩ := exists_of_map_eq_ok h
    exact .out rfl rfl
  | scale s =>
    simp only [react] at h
    split at h <;> cases h
    · exact .out rfl rfl
    · exact .keep rfl
  | hourMeter m =>
    cases h
    refine .out ?_ rfl
    unfold HourMeter.react HourMeter.step HourMeter.measured HourMeter.cleared
    dsimp only
    repeat' split
    all_goals rfl
  | impulseCounter c =>
    cases h
    exact ⟨rfl, fun _ => rfl⟩
  | inputBridge b =>
    cases h
    exact .keep rfl
  | const _ | invert | gate _ | comparison _ | clamp _ =>
    cases h
    exact .out rfl rfl
  | _ =>
    -- each way through the node sets its only output or keeps its outputs
    cases h
    dsimp only [EdgeDetector.react, EdgeDetector.onInputs, DelayOn.react, DelayOff.react,
      Pulse.react, Staircase.react, OutputBridge.react, OutputBridge.onInputs, SceneTrigger.react,
      SceneTrigger.onInputs, Reaction.map]
    repeat' split
    all_goals first | exact .out rfl rfl | exact .keep rfl

theorem outputCount_state (h : b.react v = .ok r) : r.state.outputCount = b.outputCount := by
  rw [← outputCount_parameters, (kept_of_react h).parameters_eq, outputCount_parameters]

theorem inputBridge?_state (h : b.react v = .ok r) : r.state.inputBridge? = b.inputBridge? := by
  rw [← inputBridge?_parameters, (kept_of_react h).parameters_eq, inputBridge?_parameters]

end Behavior

end SignalGraph
