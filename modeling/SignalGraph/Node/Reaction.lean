import SignalGraph.Node.Ports
import SignalGraph.Timer.Armed

/-!
# Reactions

A node is evaluated on its view: why it is evaluated, its ports, its armed timers and the time. Its
answer is a reaction: its next private state, the values of its outputs, and commands that the
engine carries out in their order.
-/

namespace SignalGraph

/-- Why a node is evaluated. -/
inductive Trigger where
  /-- An input has changed, or the graph has just been loaded. -/
  | inputs
  /-- One of the node's timers has fired. -/
  | timer (key : TimerKey)
  deriving DecidableEq, Repr, Inhabited

/-- What a node sees of the time. -/
structure Reading where
  /-- The local wall clock. -/
  localNow : Moment
  /-- Absolute time, by which durations are measured. -/
  absoluteNow : Moment
  /-- Milliseconds until shortly after the next full minute of the wall clock. -/
  untilTick : Nat
  deriving Inhabited

/-- What a node sees when it is evaluated. -/
structure View where
  trigger : Trigger
  ports : Ports
  timers : ArmedTimers
  reading : Reading

namespace View

/-- The value of an input port. -/
def input (v : View) (i : Nat) : Value :=
  v.ports.inputAt i

/-- The level of an input port: its value as a truth value. -/
def level (v : View) (i : Nat) : Bool :=
  (v.input i).truth

/-- The value of an output port before the evaluation. -/
def output (v : View) (i : Nat) : Value :=
  v.ports.outputAt i

def isArmed (v : View) (key : TimerKey) : Bool :=
  v.timers.isArmed key

end View

/-- What a node asks the engine to do. -/
inductive Command where
  /-- Arms a timer, in place of one under the same key. -/
  | arm (key : TimerKey) (delay : Nat)
  | cancel (key : TimerKey)
  | write (signal : String) (value : Value) (ack : Bool)
  /-- Looks the signal of a scene up, or takes the fallback, and writes a payload to it. Unless
  `pulse` is zero, a timer for the reset write to that signal is armed. -/
  | trigger (scene fallback : Option String) (payload : Value) (ack : Bool) (pulse : Nat)
  deriving Inhabited

/-- What a node with private state of type `σ` answers. -/
structure Reaction (σ : Type) where
  state : σ
  /-- The values of all outputs. -/
  outputs : List Value
  commands : List Command := []

namespace Reaction

/-- The same reaction with another private state. -/
def map {σ τ : Type} (f : σ → τ) (r : Reaction σ) : Reaction τ :=
  { state := f r.state, outputs := r.outputs, commands := r.commands }

/-- A reaction that sets the only output. -/
def out {σ : Type} (state : σ) (value : Value) (commands : List Command := []) : Reaction σ :=
  { state := state, outputs := [value], commands := commands }

/-- A reaction that leaves the outputs as they are. -/
def keep {σ : Type} (state : σ) (v : View) (commands : List Command := []) : Reaction σ :=
  { state := state, outputs := v.ports.outputs, commands := commands }

end Reaction

/-- The value of an output that has been settled: false instead of `null`. -/
def settled (v : Value) : Value :=
  if v.isNull then .bool false else v

end SignalGraph
