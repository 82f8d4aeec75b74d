/-!
# Documents

A document is what a notation for structured data writes down before anyone asks what it is for.
JSON text and MessagePack bytes are both read into documents, and configurations are decoded from
documents by rules of their own. Some parts of a document have a notation but no value; they do no
harm where nothing is read from them.
-/

namespace SignalGraph

/-- Structured data as written. -/
inductive Document where
  | null
  | bool (b : Bool)
  /-- A whole number written without the possibility of a sign. -/
  | unsigned (n : Nat)
  /-- A whole number written with the possibility of a sign. -/
  | signed (i : Int)
  | float (x : Float)
  | text (s : String)
  | bytes (b : List UInt8)
  | array (items : List Document)
  | map (members : List (Document × Document))
  /-- Bytes with a type tag of the application. -/
  | extension (tag : UInt8) (data : List UInt8)
  /-- Something written by the rules of the notation that has no value: a number out of range, half
  of a surrogate pair, or a structure nested too deeply. -/
  | invalid
  deriving Inhabited

namespace Document

/-- The text of a document that is a text, or bytes that encode one. -/
def text? : Document → Option String
  | .text s => some s
  | .bytes b => String.fromUTF8? ⟨b.toArray⟩
  | _ => none

end Document

end SignalGraph
