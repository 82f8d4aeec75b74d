import SignalGraph.Config.Declaration
import SignalGraph.MessagePack.Writer

/-!
# Encoding configurations

A configuration as a document and as MessagePack bytes, with records as maps from field names to
values or as arrays of the values of their fields.
-/

namespace SignalGraph

/-- How records are written. -/
inductive RecordStyle where
  /-- As maps from field names to values. -/
  | named
  /-- As arrays of the values of the fields, in their order. -/
  | compact
  deriving DecidableEq, Repr

namespace RecordStyle

/-- The document of a record with these fields. -/
def record (style : RecordStyle) (fields : List (String × Document)) : Document :=
  match style with
  | .named => .map (fields.map fun (name, d) => (.text name, d))
  | .compact => .array (fields.map Prod.snd)

end RecordStyle

mutual

/-- The document of a JSON value. -/
def Json.toDocument : Json → Document
  | .null => .null
  | .bool b => .bool b
  | .int i => if i < 0 then .signed i else .unsigned i.toNat
  | .float x => .float x
  | .str s => .text s
  | .array items => .array (Json.itemsToDocuments items)
  | .object members => .map (Json.membersToDocuments members)

/-- The documents of a list of JSON values. -/
def Json.itemsToDocuments : List Json → List Document
  | [] => []
  | j :: js => j.toDocument :: Json.itemsToDocuments js

/-- The document members of the members of an object. -/
def Json.membersToDocuments : List (String × Json) → List (Document × Document)
  | [] => []
  | (name, j) :: rest => (.text name, j.toDocument) :: Json.membersToDocuments rest

end

variable (style : RecordStyle)

def Endpoint.toDocument (e : Endpoint) : Document :=
  style.record [("node", .text e.node), ("port", .text e.port)]

def LinkDecl.toDocument (l : LinkDecl) : Document :=
  style.record [("from", l.source.toDocument style), ("to", l.target.toDocument style)]

def NodeDecl.toDocument (n : NodeDecl) : Document :=
  style.record
    [("id", .text n.id), ("type", .text n.typeName), ("enabled", .bool n.enabled),
      ("params", .map (Json.membersToDocuments n.params))]

def GraphDecl.toDocument (g : GraphDecl) : Document :=
  style.record
    [("id", .text g.id), ("enabled", .bool g.enabled),
      ("nodes", .array (g.nodes.map (NodeDecl.toDocument style))),
      ("links", .array (g.links.map (LinkDecl.toDocument style)))]

def Configuration.toDocument (c : Configuration) : Document :=
  style.record
    [("graphs", .array (c.graphs.map (GraphDecl.toDocument style))),
      ("scene_map", .map (c.scenes.map fun (scene, signal) => (.text scene, .text signal)))]

/-- The MessagePack bytes of a configuration. -/
def Configuration.toMessagePack (c : Configuration) : List UInt8 :=
  MessagePack.write (c.toDocument style)

end SignalGraph
