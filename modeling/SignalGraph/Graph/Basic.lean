import SignalGraph.Node.Behavior

/-!
# Graphs

A graph holds its nodes in the order of their declaration and the links between their ports. Ports
are addressed by numbers. One output may feed any number of inputs.
-/

namespace SignalGraph

/-- A port by number: the node's number in the graph and the port's number in the node. -/
structure PortRef where
  node : Nat
  port : Nat
  deriving DecidableEq, Repr, Inhabited

/-- A link from an output port to an input port. -/
structure Link where
  source : PortRef
  target : PortRef
  deriving DecidableEq, Repr, Inhabited

/-- A node of a graph. A disabled node keeps its ports but is never evaluated. -/
structure Node where
  id : String
  enabled : Bool
  behavior : Behavior
  ports : Ports
  timers : ArmedTimers := []
  deriving Inhabited

/-- A graph. -/
structure Graph where
  id : String
  nodes : Array Node := #[]
  links : List Link := []
  deriving Inhabited

namespace Graph

/-- The number of the node with an id. -/
def indexOf? (g : Graph) (id : String) : Option Nat :=
  g.nodes.findIdx? fun n => n.id == id

/-- The node with an id. -/
def node? (g : Graph) (id : String) : Option Node :=
  g.nodes.find? fun n => n.id == id

/-- The value of an output port, `null` if there is no such port. -/
def outputAt (g : Graph) (p : PortRef) : Value :=
  match g.nodes[p.node]? with
  | some n => n.ports.outputAt p.port
  | none => .null

/-- The inputs that an output port feeds, in the order of the links. -/
def targets (g : Graph) (source : PortRef) : List PortRef :=
  g.links.filterMap fun l => if l.source = source then some l.target else none

/-- The number of timers armed by the nodes. -/
def armedTimers (g : Graph) : Nat :=
  g.nodes.foldl (fun n node => n + node.timers.length) 0

/-- The value of an output port by names, if there is such a port. -/
def output? (g : Graph) (e : Endpoint) : Option Value :=
  match g.node? e.node with
  | none => none
  | some n => (n.ports.type.outputIndex? e.port).map n.ports.outputAt

/-- The value of an input port by names, if there is such a port. -/
def input? (g : Graph) (e : Endpoint) : Option Value :=
  match g.node? e.node with
  | none => none
  | some n => (n.ports.type.inputIndex? e.port).map n.ports.inputAt

/-- The enabled input bridges: their node numbers and signals. -/
def inputBridges (g : Graph) : List (Nat × String) :=
  g.nodes.toList.zipIdx.filterMap fun (n, i) =>
    if n.enabled then n.behavior.inputBridge?.map fun b => (i, b.signal) else none

end Graph

end SignalGraph
