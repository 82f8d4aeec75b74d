import SignalGraph.Dictionary
import SignalGraph.Document

/-!
# JSON values

The parameters of a node are JSON values. Whole numbers stay whole numbers, and the members of an
object are a dictionary. `Json.ofDocument?` gives the JSON value of a document, if it is one.
-/

namespace SignalGraph

/-- A JSON value. -/
inductive Json where
  | null
  | bool (b : Bool)
  | int (i : Int)
  | float (x : Float)
  | str (s : String)
  | array (items : List Json)
  /-- The members are a dictionary: their names increase. -/
  | object (members : List (String × Json))
  deriving Inhabited

namespace Json

def isNull : Json → Bool
  | .null => true
  | _ => false

mutual

/-- Whether two JSON values are equal, where floating-point numbers are equal as numbers. -/
def beq : Json → Json → Bool
  | .null, .null => true
  | .bool a, .bool b => a == b
  | .int a, .int b => a == b
  | .float a, .float b => a == b
  | .str a, .str b => a == b
  | .array a, .array b => beqItems a b
  | .object a, .object b => beqMembers a b
  | _, _ => false

/-- Equality of two lists of JSON values. -/
def beqItems : List Json → List Json → Bool
  | [], [] => true
  | a :: as, b :: bs => beq a b && beqItems as bs
  | _, _ => false

/-- Equality of two lists of members. -/
def beqMembers : List (String × Json) → List (String × Json) → Bool
  | [], [] => true
  | (j, a) :: as, (k, b) :: bs => j == k && beq a b && beqMembers as bs
  | _, _ => false

end

instance : BEq Json := ⟨beq⟩

mutual

/-- The JSON value of a document. Numbers that are not finite become `null`; bytes and extensions
are no JSON values. -/
def ofDocument? : Document → Option Json
  | .null => some .null
  | .bool b => some (.bool b)
  | .unsigned n => some (.int n)
  | .signed i => some (.int i)
  | .float x => some (if x.isFinite then .float x else .null)
  | .text s => some (.str s)
  | .array items => (itemsOfDocuments? items).map .array
  | .map members => objectOfDocuments? members
  | .bytes _ | .extension _ _ | .invalid => none

/-- The JSON values of a list of documents. -/
def itemsOfDocuments? : List Document → Option (List Json)
  | [] => some []
  | d :: ds =>
    match ofDocument? d, itemsOfDocuments? ds with
    | some j, some js => some (j :: js)
    | _, _ => none

/-- The object of a list of members; its first name has to be written as a text. -/
def objectOfDocuments? : List (Document × Document) → Option Json
  | [] => some (.object [])
  | (.text name, d) :: rest =>
    match ofDocument? d, membersOfDocuments? rest with
    | some j, some members => some (.object (Dictionary.ofList ((name, j) :: members)))
    | _, _ => none
  | _ => none

/-- The members of an object as written, whose names are texts or encoded texts. -/
def membersOfDocuments? : List (Document × Document) → Option (List (String × Json))
  | [] => some []
  | (name, d) :: rest =>
    match name.text?, ofDocument? d, membersOfDocuments? rest with
    | some name, some j, some members => some ((name, j) :: members)
    | _, _, _ => none

end

end Json

end SignalGraph
