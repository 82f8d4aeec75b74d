import SignalGraph.Node.NodeType
import SignalGraph.Value.Basic

/-!
# The ports of a node

The current values of the ports of one node. All of them start out as `null`, and the value of a
port that does not exist is `null`.
-/

namespace SignalGraph

/-- The values of the input and output ports of a node. -/
structure Ports where
  type : NodeType
  inputs : List Value
  outputs : List Value
  deriving Inhabited

namespace Ports

/-- The ports of a new node. -/
def new (ty : NodeType) : Ports :=
  { type := ty
    inputs := ty.inputs.map fun _ => .null
    outputs := ty.outputs.map fun _ => .null }

/-- The value of an input port by number. -/
def inputAt (p : Ports) (i : Nat) : Value :=
  p.inputs.getD i .null

/-- The value of an output port by number. -/
def outputAt (p : Ports) (i : Nat) : Value :=
  p.outputs.getD i .null

/-- The value of an input port by name. -/
def input (p : Ports) (port : String) : Value :=
  match p.type.inputIndex? port with
  | some i => p.inputAt i
  | none => .null

/-- The value of an output port by name. -/
def output (p : Ports) (port : String) : Value :=
  match p.type.outputIndex? port with
  | some i => p.outputAt i
  | none => .null

/-- Sets an input port by number; other numbers change nothing. -/
def setInputAt (p : Ports) (i : Nat) (v : Value) : Ports :=
  { p with inputs := p.inputs.set i v }

/-- Sets an output port by number; other numbers change nothing. -/
def setOutputAt (p : Ports) (i : Nat) (v : Value) : Ports :=
  { p with outputs := p.outputs.set i v }

/-- Sets an output port by name; other names change nothing. -/
def setOutput (p : Ports) (port : String) (v : Value) : Ports :=
  match p.type.outputIndex? port with
  | some i => p.setOutputAt i v
  | none => p

/-- The numbers of the output ports whose values differ from those before. -/
def changedSince (p : Ports) (before : List Value) : List Nat :=
  (List.range before.length).filter fun i => !(before.getD i .null).same (p.outputAt i)

end Ports

end SignalGraph
