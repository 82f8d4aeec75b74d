/-!
# Decimal numerals

A numeral is a sign, a natural number and a power of ten. `Numeral.ofChars?` reads the usual
notation (sign, digits with an optional point, optional exponent) and `Numeral.toFloat` gives the
binary64 number nearest to it, infinite when the numeral is out of range.
-/

namespace SignalGraph.Decimal

/-- Whether a character is an ASCII digit. -/
def isDigit (c : Char) : Bool :=
  '0' ≤ c && c ≤ '9'

/-- The natural number that a list of digits writes in base ten. -/
def natOfDigits (cs : List Char) : Nat :=
  cs.foldl (fun n c => 10 * n + (c.toNat - '0'.toNat)) 0

/-- The natural number that a nonempty list of digits writes, if it is one. -/
def natOfChars? (cs : List Char) : Option Nat :=
  if cs.isEmpty || !cs.all isDigit then none else some (natOfDigits cs)

/-- Splits off a leading sign; `true` stands for minus. -/
def splitSign : List Char → Bool × List Char
  | '-' :: cs => (true, cs)
  | '+' :: cs => (false, cs)
  | cs => (false, cs)

/-- The integer that an optional sign and a nonempty list of digits write. -/
def intOfChars? (cs : List Char) : Option Int :=
  let (negative, digits) := splitSign cs
  (natOfChars? digits).map fun n => if negative then -(n : Int) else n

/-- The number `± digits · 10 ^ exponent`. -/
structure Numeral where
  /-- Whether a minus sign was written (also before a zero). -/
  negative : Bool
  digits : Nat
  exponent : Int
  deriving DecidableEq, Repr

namespace Numeral

/-- The exponent part of a numeral: nothing, or `e` or `E` and an integer. -/
def exponentOfChars? : List Char → Option Int
  | [] => some 0
  | 'e' :: cs => intOfChars? cs
  | 'E' :: cs => intOfChars? cs
  | _ => none

/-- Reads a whole list as a numeral. Digits may be missing on one side of the point only. -/
def ofChars? (cs : List Char) : Option Numeral :=
  let (negative, unsigned) := splitSign cs
  let whole := unsigned.takeWhile isDigit
  let (fraction, tail) :=
    match unsigned.dropWhile isDigit with
    | '.' :: rest => (rest.takeWhile isDigit, rest.dropWhile isDigit)
    | rest => ([], rest)
  if whole.isEmpty && fraction.isEmpty then none
  else
    (exponentOfChars? tail).map fun e =>
      ⟨negative, natOfDigits (whole ++ fraction), e - fraction.length⟩

/-- The number of decimal digits of a natural number, one for zero. -/
def length (n : Nat) : Nat :=
  (Nat.toDigits 10 n).length

/-- The nearest binary64 number to the numeral without its sign. A numeral of `10 ^ 310` or more
is infinite and one below `10 ^ (-330)` is zero, so no greater power of ten is ever formed. -/
def magnitude (n : Numeral) : Float :=
  let top := n.exponent + length n.digits
  if n.digits = 0 || top < -330 then 0.0
  else if 310 < top then 1.0 / 0.0
  else if n.exponent < 0 then Float.ofScientific n.digits true n.exponent.natAbs
  else Float.ofScientific n.digits false n.exponent.natAbs

/-- The nearest binary64 number to a numeral; a negative zero keeps its sign. -/
def toFloat (n : Numeral) : Float :=
  if n.negative then -n.magnitude else n.magnitude

end Numeral

/-- Reads a list of characters as a binary64 number: a numeral, or one of the words `nan`, `inf`
and `infinity` in any case, with an optional sign. -/
def floatOfChars? (cs : List Char) : Option Float :=
  match Numeral.ofChars? cs with
  | some n => some n.toFloat
  | none =>
    let (negative, word) := splitSign cs
    match String.ofList (word.map Char.toLower) with
    | "inf" | "infinity" => some (if negative then -1.0 / 0.0 else 1.0 / 0.0)
    | "nan" => some (0.0 / 0.0)
    | _ => none

end SignalGraph.Decimal
