import SignalGraph.Decimal.Layout
import SignalGraph.Decimal.Numeral
import SignalGraph.Text.Blank

/-!
# Values

What travels over a link or an outside signal is a `Value`: nothing yet, a truth value, a number or
a text. Every node reads its inputs through the casts of this module (`Value.truth`,
`Value.numberOr`, `Value.number?`, `Value.text`), so all nodes agree on what `on`, `1,5` or NaN
mean. `Value.same` is the equality that decides whether something has changed; NaN is the same as
NaN, so a node that keeps giving NaN settles.
-/

namespace SignalGraph

open Decimal

/-- A value on a link or an outside signal. -/
inductive Value where
  /-- No value yet. -/
  | null
  | bool (b : Bool)
  | num (x : Float)
  | str (s : String)
  deriving Inhabited

/-- The words that stand for true, in lower case. -/
def truthyWords : List String :=
  ["true", "on", "yes", "ein", "an", "ja", "wahr", "high"]

/-- The words that stand for false, in lower case. -/
def falsyWords : List String :=
  ["false", "off", "no", "aus", "nein", "falsch", "low"]

/-- The finite number that a text writes, with a point or a comma before the fraction. -/
def parseNumber? (s : String) : Option Float :=
  let commaToPoint (c : Char) := if c = ',' then '.' else c
  (floatOfChars? ((Text.trimChars s.toList).map commaToPoint)).filter Float.isFinite

/-- The truth value of a text: a known word, else whether its number is not zero. A text that is
neither is true, unless it is blank. -/
def truthOfText (s : String) : Bool :=
  let word := Text.lower (Text.trim s)
  if word.isEmpty then false
  else if truthyWords.contains word then true
  else if falsyWords.contains word then false
  else
    match parseNumber? word with
    | some x => x != 0.0
    | none => true

namespace Value

def isNull : Value → Bool
  | .null => true
  | _ => false

/-- The text that shows a value. -/
def text : Value → String
  | .null => "null"
  | .bool true => "true"
  | .bool false => "false"
  | .num x => Layout.plain.write x
  | .str s => s

/-- A value as a truth value. -/
def truth : Value → Bool
  | .null => false
  | .bool b => b
  | .num x => x != 0.0 && !x.isNaN
  | .str s => truthOfText s

/-- The number that a truth value stands for. -/
def ofTruth (b : Bool) : Float :=
  if b then 1.0 else 0.0

/-- A value as a number, if it has a numeric form. -/
def number? : Value → Option Float
  | .null => none
  | .bool b => some (ofTruth b)
  | .num x => some x
  | .str s => parseNumber? s

/-- A value as a number, `default` if it has no numeric form. -/
def numberOr (v : Value) (default : Float) : Float :=
  v.number?.getD default

/-- Whether a value is unchanged: equal, where NaN equals NaN and the zeros equal each other. -/
def same : Value → Value → Bool
  | .null, .null => true
  | .bool a, .bool b => a == b
  | .num x, .num y => x == y || (x.isNaN && y.isNaN)
  | .str s, .str t => s == t
  | _, _ => false

end Value

end SignalGraph
