import SignalGraph.Graph.Basic

/-!
# Building graphs

A graph is built from the valid part of its declaration. A node is left out if its id is taken, its
type is unknown or its parameters are refused; a link, if one of its ends names no node that was
kept or no port of its type. Each of them is reported, the nodes first.
-/

namespace SignalGraph

/-- The node that a declaration describes. -/
def NodeDecl.build (d : NodeDecl) : Except ConfigError Node :=
  match NodeType.ofName? d.typeName with
  | none => .error (.unknownType d.id d.typeName)
  | some ty =>
    (Behavior.ofParams ty ⟨d.id, d.params⟩).map fun behavior =>
      { id := d.id, enabled := d.enabled, behavior := behavior, ports := .new ty }

namespace Graph

/-- Adds a node, unless its id is taken. -/
def addNode (g : Graph) (d : NodeDecl) : Except ConfigError Graph :=
  match g.indexOf? d.id with
  | some _ => .error (.duplicateNode d.id)
  | none => d.build.map fun n => { g with nodes := g.nodes.push n }

/-- The number and the type of the node that an end of a link names. -/
def resolveNode (g : Graph) (e : Endpoint) : Except ConfigError (Nat × NodeType) :=
  match g.indexOf? e.node, g.node? e.node with
  | some i, some n => .ok (i, n.ports.type)
  | _, _ => .error (.missingNode e.node)

/-- The link that a declaration describes. -/
def resolveLink (g : Graph) (d : LinkDecl) : Except ConfigError Link := do
  let (sourceNode, sourceType) ← g.resolveNode d.source
  let (targetNode, targetType) ← g.resolveNode d.target
  match sourceType.outputIndex? d.source.port, targetType.inputIndex? d.target.port with
  | some sourcePort, some targetPort =>
    return { source := ⟨sourceNode, sourcePort⟩, target := ⟨targetNode, targetPort⟩ }
  | none, _ => throw (.unknownPort d.source.node d.source.port)
  | some _, none => throw (.unknownPort d.target.node d.target.port)

/-- Adds a link. -/
def addLink (g : Graph) (d : LinkDecl) : Except ConfigError Graph :=
  (g.resolveLink d).map fun l => { g with links := g.links ++ [l] }

/-- Adds elements one after the other and collects the errors of those left out. -/
def addAll {δ : Type} (add : Graph → δ → Except ConfigError Graph) :
    Graph → List δ → Graph × List ConfigError
  | g, [] => (g, [])
  | g, d :: ds =>
    match add g d with
    | .ok g => addAll add g ds
    | .error e =>
      let (g, errors) := addAll add g ds
      (g, e :: errors)

/-- Builds a graph and reports what was left out. -/
def build (d : GraphDecl) : Graph × List ConfigError :=
  let (g, nodeErrors) := addAll addNode { id := d.id } d.nodes
  let (g, linkErrors) := addAll addLink g d.links
  (g, nodeErrors ++ linkErrors)

end Graph

end SignalGraph
