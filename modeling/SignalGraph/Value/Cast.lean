import SignalGraph.Value.Basic

/-!
# Casts

How an input bridge turns what arrives from outside into a value of the kind it promises. No cast
touches `null`.
-/

namespace SignalGraph

/-- The kind of value that an input bridge gives. -/
inductive Cast where
  /-- Texts that write a number become numbers and the words `true` and `false` truth values. -/
  | auto
  | bool
  /-- Values without a numeric form become NaN. -/
  | number
  | string
  deriving DecidableEq, Repr, Inhabited

namespace Cast

/-- The cast that a word names, in any case. -/
def ofName? (name : String) : Option Cast :=
  match Text.lower name with
  | "auto" => some .auto
  | "bool" | "boolean" => some .bool
  | "number" | "num" => some .number
  | "string" | "str" | "text" => some .string
  | _ => none

/-- The automatic cast of a text. -/
def autoOfText (s : String) : Value :=
  match Text.lower (Text.trim s) with
  | "true" => .bool true
  | "false" => .bool false
  | _ =>
    match parseNumber? s with
    | some x => .num x
    | none => .str s

/-- Casts a value. -/
def apply : Cast → Value → Value
  | _, .null => .null
  | .auto, .str s => autoOfText s
  | .auto, v => v
  | .bool, v => .bool v.truth
  | .number, v => .num (v.numberOr (0.0 / 0.0))
  | .string, v => .str v.text

end Cast

end SignalGraph
