import SignalGraph.Node.Arithmetic
import SignalGraph.Node.Bridge
import SignalGraph.Node.Comparison
import SignalGraph.Node.Counter
import SignalGraph.Node.Delay
import SignalGraph.Node.Gate
import SignalGraph.Node.HourMeter
import SignalGraph.Node.Latch
import SignalGraph.Node.Pulse
import SignalGraph.Node.Schedule

/-!
# Behaviours

The behaviour of a node is what its type and parameters make of it, with its private state.
`Behavior.ofParams` reads the parameters and `Behavior.react` evaluates the node. Only operations
on two numbers can fail, and a failure changes nothing.
-/

namespace SignalGraph

/-- A node's parameters and private state. -/
inductive Behavior where
  | const (value : Value)
  | invert
  | gate (g : Gate)
  | comparison (c : Comparison)
  | operation (o : Operation)
  | clamp (c : Clamp)
  | scale (s : Scale)
  | edge (e : EdgeDetector)
  | toggle (t : Toggle)
  | setReset (l : SetReset)
  | delayOn (d : DelayOn)
  | delayOff (d : DelayOff)
  | pulse (p : Pulse)
  | staircase (s : Staircase)
  | schedule (s : WeeklySchedule)
  | impulseCounter (c : ImpulseCounter)
  | counter (c : Counter)
  | hourMeter (m : HourMeter)
  | inputBridge (b : InputBridge)
  | outputBridge (b : OutputBridge)
  | sceneTrigger (s : SceneTrigger)
  deriving Inhabited

/-- The output of a weekly schedule, which is evaluated anew at the next full minute. -/
def WeeklySchedule.react (s : WeeklySchedule) (v : View) : Reaction WeeklySchedule :=
  .out s (.bool (s.isActive v.reading.localNow (v.level 0))) [.arm .tick v.reading.untilTick]

namespace Behavior

/-- The behaviour of a node of type `ty` with these parameters. -/
def ofParams (ty : NodeType) (p : Params) : Except ConfigError Behavior :=
  match ty with
  | .const => .ok (.const ((p.value? "value").getD .null))
  | .not => .ok .invert
  | .and => .ok (.gate .and)
  | .or => .ok (.gate .or)
  | .xor => .ok (.gate .xor)
  | .compare => (Comparison.ofParams p).map .comparison
  | .add => .ok (.operation .add)
  | .sub => .ok (.operation .sub)
  | .mul => .ok (.operation .mul)
  | .div => .ok (.operation .div)
  | .min => .ok (.operation .min)
  | .max => .ok (.operation .max)
  | .clamp => (Clamp.ofParams p).map .clamp
  | .scale => (Scale.ofParams p).map .scale
  | .edge => (EdgeDetector.ofParams p none).map .edge
  | .edgeRising => (EdgeDetector.ofParams p (some .rising)).map .edge
  | .edgeFalling => (EdgeDetector.ofParams p (some .falling)).map .edge
  | .edgeBoth => (EdgeDetector.ofParams p (some .both)).map .edge
  | .toggle => (Toggle.ofParams p).map .toggle
  | .rs => (SetReset.ofParams p).map .setReset
  | .delayOn => (DelayOn.ofParams p).map .delayOn
  | .delayOff => (DelayOff.ofParams p "delay_ms").map .delayOff
  | .pulse => (Pulse.ofParams p).map .pulse
  | .staircase => (Staircase.ofParams p).map .staircase
  | .pulseExtend => (DelayOff.ofParams p "hold_ms").map .delayOff
  | .schedule => (WeeklySchedule.ofParams p).map .schedule
  | .impulseCounter => (ImpulseCounter.ofParams p).map .impulseCounter
  | .counter => (Counter.ofParams p).map .counter
  | .runtimeHours => (HourMeter.ofParams p).map .hourMeter
  | .dpIn => (InputBridge.ofParams p).map .inputBridge
  | .dpOut => (OutputBridge.ofParams p).map .outputBridge
  | .scene => (SceneTrigger.ofParams p).map .sceneTrigger

/-- Evaluates a node. -/
def react (b : Behavior) (v : View) : Except EvalError (Reaction Behavior) :=
  match b with
  | .const value => .ok (.out b value)
  | .invert => .ok (.out b (SignalGraph.invert (v.input 0)))
  | .gate g => .ok (.out b (g.output (v.input 0) (v.input 1)))
  | .comparison c => .ok (.out b (c.output (v.input 0) (v.input 1)))
  | .operation o => (o.output (v.input 0) (v.input 1)).map fun value => .out b value
  | .clamp c => .ok (.out b (c.output (v.input 0)))
  | .scale s =>
    match s.output? (v.input 0) with
    | some value => .ok (.out b value)
    | none => .ok (.keep b v)
  | .edge e => .ok ((e.react v).map .edge)
  | .toggle t => .ok ((t.react v).map .toggle)
  | .setReset l => .ok ((l.react v).map .setReset)
  | .delayOn d => .ok ((d.react v).map .delayOn)
  | .delayOff d => .ok ((d.react v).map .delayOff)
  | .pulse p => .ok ((p.react v).map .pulse)
  | .staircase s => .ok ((s.react v).map .staircase)
  | .schedule s => .ok ((s.react v).map .schedule)
  | .impulseCounter c => .ok ((c.react v).map .impulseCounter)
  | .counter c => .ok ((c.react v).map .counter)
  | .hourMeter m => .ok ((m.react v).map .hourMeter)
  | .inputBridge _ => .ok (.keep b v)
  | .outputBridge o => .ok ((o.react v).map .outputBridge)
  | .sceneTrigger s => .ok ((s.react v).map .sceneTrigger)

/-- The input bridge, if this is one. -/
def inputBridge? : Behavior → Option InputBridge
  | .inputBridge b => some b
  | _ => none

end Behavior

end SignalGraph
