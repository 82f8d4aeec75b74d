import SignalGraph.Node.Edge
import SignalGraph.Value.Cast

/-!
# Bridges to outside signals

An input bridge shows the value of a signal at its output; the engine sets it, so evaluating the
bridge does nothing. An output bridge writes its input to a signal, but not more often than once in
its interval: a value that comes too early waits, and only the latest one is written. A scene
trigger writes a payload at each edge of its input.
-/

namespace SignalGraph

/-! ### Input bridges -/

/-- A node that shows the value of a signal. -/
structure InputBridge where
  signal : String
  cast : Cast
  deriving DecidableEq, Repr, Inhabited

/-- The bridge that parameters describe. -/
def InputBridge.ofParams (p : Params) : Except ConfigError InputBridge := do
  let cast ←
    match ← p.text? "cast" with
    | none => pure Cast.auto
    | some name =>
      match Cast.ofName? name with
      | some cast => pure cast
      | none => p.invalid "cast" .notCast
  return { signal := ← p.requiredText "dp", cast := cast }

/-! ### Output bridges -/

/-- A node that writes its input to a signal. -/
structure OutputBridge where
  signal : String
  /-- The least number of milliseconds between two writes. -/
  interval : Nat
  ack : Bool
  /-- The value of the last write and when it was made. -/
  lastWrite : Option (Value × Moment) := none
  /-- The value that waits for the end of the interval. -/
  waiting : Option Value := none
  deriving Inhabited

namespace OutputBridge

/-- The bridge that parameters describe. -/
def ofParams (p : Params) : Except ConfigError OutputBridge := do
  return { signal := ← p.requiredText "dp"
           interval := ← p.durationOr "min_interval_ms" 0
           ack := ← p.flagOr "ack" false }

/-- The bridge after a write of `value`. -/
def written (b : OutputBridge) (value : Value) (now : Moment) : OutputBridge :=
  { b with lastWrite := some (value, now), waiting := none }

/-- Whether a value repeats the last write. -/
def repeats (b : OutputBridge) (value : Value) : Bool :=
  match b.lastWrite with
  | some (last, _) => last.same value
  | none => false

/-- How many milliseconds the next write has to wait; `none` if it has not. -/
def delay? (b : OutputBridge) (now : Moment) : Option Nat :=
  match b.lastWrite with
  | some (_, time) =>
    let elapsed := now.millisSince time
    if elapsed < b.interval then some (b.interval - elapsed) else none
  | none => none

/-- An evaluation on the input. -/
def onInputs (b : OutputBridge) (v : View) : Reaction OutputBridge :=
  let value := v.input 0
  let now := v.reading.absoluteNow
  if value.isNull then .keep b v
  else if b.repeats value then
    .keep { b with waiting := none } v (if b.waiting.isSome then [.cancel .throttle] else [])
  else
    match b.delay? now with
    | some delay => .keep { b with waiting := some value } v [.arm .throttle delay]
    | none => .keep (b.written value now) v [.cancel .throttle, .write b.signal value b.ack]

def react (b : OutputBridge) (v : View) : Reaction OutputBridge :=
  match v.trigger with
  | .timer .throttle =>
    match b.waiting with
    | some value =>
      .keep (b.written value v.reading.absoluteNow) v [.write b.signal value b.ack]
    | none => .keep b v
  | _ => b.onInputs v

end OutputBridge

/-! ### Scene triggers -/

/-- A node that writes a payload to the signal of a scene at each edge of its input, and, `pulse`
milliseconds later, a reset value. -/
structure SceneTrigger where
  scene : Option String
  /-- The signal if there is no scene or no signal of it is known. -/
  fallback : Option String
  payload : Value
  kind : EdgeKind
  pulse : Nat
  resetValue : Value
  ack : Bool
  /-- The level at the last evaluation. -/
  level : Bool := false
  deriving Inhabited

namespace SceneTrigger

/-- The trigger that parameters describe. -/
def ofParams (p : Params) : Except ConfigError SceneTrigger := do
  let scene ← p.text? "scene"
  let fallback ← p.text? "dp"
  if scene.isNone && fallback.isNone then p.invalid "scene" .missingTarget
  return { scene := scene, fallback := fallback
           payload := (p.value? "payload").getD (.bool true)
           kind := ← EdgeKind.ofParams p .rising
           pulse := ← p.durationOr "pulse_ms" 0
           resetValue := (p.value? "reset_value").getD (.bool false)
           ack := ← p.flagOr "ack" false }

/-- An evaluation on the input. -/
def onInputs (s : SceneTrigger) (v : View) : Reaction SceneTrigger :=
  let now := v.level 0
  let next := { s with level := now }
  if s.kind.isEdge s.level now then
    .keep next v [.trigger s.scene s.fallback s.payload s.ack s.pulse]
  else .keep next v

def react (s : SceneTrigger) (v : View) : Reaction SceneTrigger :=
  match v.trigger with
  | .timer (.pulse signal) => .keep s v [.write signal s.resetValue s.ack]
  | _ => s.onInputs v

end SceneTrigger

end SignalGraph
