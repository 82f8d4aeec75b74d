import SignalGraph.Json.Basic

/-!
# Declarations

A configuration declares graphs: nodes with a type name and parameters, and links between their
ports. It is plain data; nothing is checked before a graph is built from it.
-/

namespace SignalGraph

/-- The parameters of a node by name. -/
abbrev ParamTable := Dictionary Json

/-- A port of a node, by names. -/
structure Endpoint where
  node : String
  port : String
  deriving DecidableEq, Repr, Inhabited

/-- A link from an output port to an input port. -/
structure LinkDecl where
  source : Endpoint
  target : Endpoint
  deriving DecidableEq, Repr, Inhabited

/-- A node: its id, the name of its type and its parameters. A disabled node keeps its ports but is
never evaluated. -/
structure NodeDecl where
  id : String
  typeName : String
  enabled : Bool := true
  params : ParamTable := []
  deriving BEq, Inhabited

/-- A graph: its nodes and links, in order. -/
structure GraphDecl where
  id : String
  enabled : Bool := true
  nodes : List NodeDecl := []
  links : List LinkDecl := []
  deriving BEq, Inhabited

/-- All graphs, and the signals of scenes that the host does not know. -/
structure Configuration where
  graphs : List GraphDecl := []
  scenes : Dictionary String := []
  deriving BEq, Inhabited

/-- Limits of the engine. -/
structure Settings where
  /-- How many links one pass may follow before it is cut short. -/
  maxSteps : Nat := 8000
  /-- How many milliseconds after a full minute a minute tick fires. -/
  minuteGrace : Nat := 20
  deriving DecidableEq, Repr, Inhabited

namespace NodeDecl

/-- Sets one parameter. -/
def withParam (n : NodeDecl) (key : String) (value : Json) : NodeDecl :=
  { n with params := n.params.insert key value }

/-- Replaces all parameters by the members of an object; other values change nothing. -/
def withParams (n : NodeDecl) : Json → NodeDecl
  | .object members => { n with params := members }
  | _ => n

def disabled (n : NodeDecl) : NodeDecl :=
  { n with enabled := false }

end NodeDecl

namespace GraphDecl

/-- Adds a node at the end. -/
def withNode (g : GraphDecl) (n : NodeDecl) : GraphDecl :=
  { g with nodes := g.nodes ++ [n] }

/-- Adds a link at the end. -/
def withLink (g : GraphDecl) (source target : Endpoint) : GraphDecl :=
  { g with links := g.links ++ [⟨source, target⟩] }

def disabled (g : GraphDecl) : GraphDecl :=
  { g with enabled := false }

end GraphDecl

/-- Sets the signal of a scene. -/
def Configuration.withScene (c : Configuration) (scene signal : String) : Configuration :=
  { c with scenes := c.scenes.insert scene signal }

end SignalGraph
