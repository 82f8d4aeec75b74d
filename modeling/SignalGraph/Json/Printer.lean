import SignalGraph.Decimal.Layout
import SignalGraph.Json.Basic
import SignalGraph.Value.Basic

/-!
# JSON text

`Json.print` writes a JSON value without blanks, the members of an object in the order of their
names. Inside a string only the quote, the backslash and the control characters below the space are
escaped. `Value.ofJson` carries what has no value of its own, arrays and objects, as this text.
-/

namespace SignalGraph

namespace Json

/-- A hexadecimal digit, in lower case. -/
def hexDigit (n : Nat) : Char :=
  Nat.digitChar (n % 16)

/-- A character inside a JSON string. -/
def escapeChar (c : Char) : List Char :=
  if c = '"' then ['\\', '"']
  else if c = '\\' then ['\\', '\\']
  else if c = '\n' then ['\\', 'n']
  else if c = '\r' then ['\\', 'r']
  else if c = '\t' then ['\\', 't']
  else if c = '\x08' then ['\\', 'b']
  else if c = '\x0c' then ['\\', 'f']
  else if c.toNat < 0x20 then ['\\', 'u', '0', '0', hexDigit (c.toNat / 16), hexDigit c.toNat]
  else [c]

/-- A text as a JSON string. -/
def quote (s : String) : List Char :=
  '"' :: (s.toList.flatMap escapeChar ++ ['"'])

mutual

/-- The characters of a JSON value. -/
def chars : Json → List Char
  | .null => ['n', 'u', 'l', 'l']
  | .bool true => ['t', 'r', 'u', 'e']
  | .bool false => ['f', 'a', 'l', 's', 'e']
  | .int i => (toString i).toList
  | .float x => (Decimal.Layout.json.write x).toList
  | .str s => quote s
  | .array [] => ['[', ']']
  | .array (j :: js) => '[' :: (chars j ++ charsOfItems js)
  | .object [] => ['{', '}']
  | .object ((name, j) :: rest) => '{' :: (quote name ++ ':' :: (chars j ++ charsOfMembers rest))

/-- The characters of the items after the first one, and the closing bracket. -/
def charsOfItems : List Json → List Char
  | [] => [']']
  | j :: js => ',' :: (chars j ++ charsOfItems js)

/-- The characters of the members after the first one, and the closing brace. -/
def charsOfMembers : List (String × Json) → List Char
  | [] => ['}']
  | (name, j) :: rest => ',' :: (quote name ++ ':' :: (chars j ++ charsOfMembers rest))

end

/-- The text of a JSON value. -/
def print (j : Json) : String :=
  String.ofList j.chars

/-- The number of a whole number, rounded to binary64. -/
def floatOfInt (i : Int) : Float :=
  let magnitude := Float.ofScientific i.natAbs false 0
  if i < 0 then -magnitude else magnitude

end Json

namespace Value

/-- The value of a JSON value. -/
def ofJson : Json → Value
  | .null => .null
  | .bool b => .bool b
  | .int i => .num (Json.floatOfInt i)
  | .float x => .num x
  | .str s => .str s
  | j => .str j.print

/-- A value as JSON; numbers are written as floating-point numbers, and `null` stands for those
that are not finite. -/
def toJson : Value → Json
  | .null => .null
  | .bool b => .bool b
  | .num x => if x.isFinite then .float x else .null
  | .str s => .str s

/-- The value of a document, which is `null`, a truth value, a number or a text. -/
def ofDocument? : Document → Option Value
  | .null => some .null
  | .bool b => some (.bool b)
  | .unsigned n => some (.num (Json.floatOfInt n))
  | .signed i => some (.num (Json.floatOfInt i))
  | .float x => some (.num x)
  | .text s => some (.str s)
  | _ => none

end Value

end SignalGraph
