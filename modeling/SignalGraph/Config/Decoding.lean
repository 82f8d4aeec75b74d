import SignalGraph.Config.Declaration
import SignalGraph.Config.Error
import SignalGraph.Json.Printer
import SignalGraph.Json.Reader
import SignalGraph.MessagePack.Reader

/-!
# Decoding configurations

Documents are decoded record by record. A record is a map from field names to values, or an array
of the values of its fields in their order, where fields with a default may be left out. Unknown
fields are ignored, whatever their values are, and a field that occurs twice is an error. A
dictionary is a map in which the last of several entries under one key counts.

JSON text and MessagePack bytes follow the same rules; `Format` holds where they differ. Where an
array is expected, a MessagePack byte string is the array of its bytes, so the empty one is also an
empty list and a record without a field.
-/

namespace SignalGraph

/-- Where a document comes from. -/
inductive Format where
  | json
  | messagePack
  deriving DecidableEq, Repr

namespace Document

/-- The position in `names` of the field that a key means: its name, its encoded name or its
number. `some none` is a key of no field, and `none` cannot be the key of a record. -/
def field? (names : List String) : Document → Option (Option Nat)
  | .text s => some (names.findIdx? (· == s))
  | .bytes b => some (names.findIdx? fun name => name.toUTF8.data.toList == b)
  | .unsigned n => some (if n < names.length then some n else none)
  | _ => none

/-- Puts the value of one field among those already known. -/
def addField (names : List String) (known : List (Option Document))
    (entry : Document × Document) : Option (List (Option Document)) :=
  match field? names entry.1 with
  | none => none
  | some none => some known
  | some (some i) =>
    match known[i]? with
    | some none => some (known.set i (some entry.2))
    | _ => none

/-- The items of an array. Where an array is expected, bytes are an array of numbers. -/
def items? : Document → Option (List Document)
  | .array items => some items
  | .bytes b => some (b.map fun n => .unsigned n.toNat)
  | _ => none

/-- The values of fields written in their order, of which the last ones may be missing. -/
def inOrder? (names : List String) (items : List Document) : Option (List (Option Document)) :=
  if items.length ≤ names.length then
    some (items.map some ++ List.replicate (names.length - items.length) none)
  else none

/-- The values of the named fields of a record, in the order of the names. -/
def record? (names : List String) : Document → Option (List (Option Document))
  | .map members => members.foldlM (addField names) (names.map fun _ => none)
  | d => d.items?.bind (inOrder? names)

def bool? : Document → Option Bool
  | .bool b => some b
  | _ => none

/-- A number of 64 bits without sign. -/
def nat? : Document → Option Nat
  | .unsigned n => some n
  | _ => none

/-- The entries of a dictionary of texts. -/
def textEntries? (members : List (Document × Document)) : Option (List (String × String)) :=
  members.mapM fun (key, value) => do return (← key.text?, ← value.text?)

/-- A dictionary of texts. -/
def textDictionary? : Document → Option (Dictionary String)
  | .map members => (textEntries? members).map Dictionary.ofList
  | _ => none

/-- A parameter table. The empty MessagePack value is an empty table. -/
def paramTable? (format : Format) : Document → Option ParamTable
  | .map members => (Json.membersOfDocuments? members).map Dictionary.ofList
  | .null => if format = .messagePack then some [] else none
  | _ => none

/-- A field with a default. -/
def orDefault {α : Type} (default : α) (decode : Document → Option α) : Option Document → Option α
  | none => some default
  | some d => decode d

/-- A field without a default. -/
def required {α : Type} (decode : Document → Option α) (field : Option Document) : Option α :=
  field.bind decode

/-- A list of records. -/
def listOf? {α : Type} (decode : Document → Option α) (d : Document) : Option (List α) :=
  d.items?.bind fun items => items.mapM decode

end Document

open Document

def Endpoint.ofDocument? (d : Document) : Option Endpoint :=
  match record? ["node", "port"] d with
  | some [node, port] => do return { node := ← required text? node, port := ← required text? port }
  | _ => none

def LinkDecl.ofDocument? (d : Document) : Option LinkDecl :=
  match record? ["from", "to"] d with
  | some [source, target] => do
    return { source := ← required Endpoint.ofDocument? source
             target := ← required Endpoint.ofDocument? target }
  | _ => none

def NodeDecl.ofDocument? (format : Format) (d : Document) : Option NodeDecl :=
  match record? ["id", "type", "enabled", "params"] d with
  | some [id, typeName, enabled, params] => do
    return { id := ← required text? id
             typeName := ← required text? typeName
             enabled := ← orDefault true bool? enabled
             params := ← orDefault [] (paramTable? format) params }
  | _ => none

def GraphDecl.ofDocument? (format : Format) (d : Document) : Option GraphDecl :=
  match record? ["id", "enabled", "nodes", "links"] d with
  | some [id, enabled, nodes, links] => do
    return { id := ← required text? id
             enabled := ← orDefault true bool? enabled
             nodes := ← orDefault [] (listOf? (NodeDecl.ofDocument? format)) nodes
             links := ← orDefault [] (listOf? LinkDecl.ofDocument?) links }
  | _ => none

def Configuration.ofDocument? (format : Format) (d : Document) : Option Configuration :=
  match record? ["graphs", "scene_map"] d with
  | some [graphs, scenes] => do
    return { graphs := ← orDefault [] (listOf? (GraphDecl.ofDocument? format)) graphs
             scenes := ← orDefault [] textDictionary? scenes }
  | _ => none

def Settings.ofDocument? (d : Document) : Option Settings :=
  match record? ["max_propagation_steps", "minute_tick_grace_ms"] d with
  | some [maxSteps, minuteGrace] => do
    let defaults : Settings := {}
    return { maxSteps := ← orDefault defaults.maxSteps nat? maxSteps
             minuteGrace := ← orDefault defaults.minuteGrace nat? minuteGrace }
  | _ => none

/-- Fails with an error instead of nothing. -/
def orError {α : Type} (e : DecodeError) : Option α → Except DecodeError α
  | some a => .ok a
  | none => .error e

/-- Decodes a configuration from JSON text. -/
def Configuration.ofJson (text : String) : Except DecodeError Configuration :=
  orError .json ((Json.read? text).bind (Configuration.ofDocument? .json))

/-- Decodes a configuration from MessagePack bytes; what follows it does not count. -/
def Configuration.ofMessagePack (bytes : List UInt8) : Except DecodeError Configuration :=
  orError .messagePack ((MessagePack.read? bytes).bind (Configuration.ofDocument? .messagePack))

/-- Decodes settings from JSON text. -/
def Settings.ofJson (text : String) : Except DecodeError Settings :=
  orError .json ((Json.read? text).bind Settings.ofDocument?)

/-- Decodes the declaration of a graph from JSON text. -/
def GraphDecl.ofJson (text : String) : Except DecodeError GraphDecl :=
  orError .json ((Json.read? text).bind (GraphDecl.ofDocument? .json))

/-- Decodes a value from JSON text. -/
def Value.ofJsonText (text : String) : Except DecodeError Value :=
  orError .json ((Json.read? text).bind Value.ofDocument?)

end SignalGraph
