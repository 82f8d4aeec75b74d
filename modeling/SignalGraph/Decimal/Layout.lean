import SignalGraph.Decimal.Shortest

/-!
# Writing numbers

How a binary64 number is written: the fewest digits that read back, laid out by a `Layout`. Two
layouts are in use. `Layout.plain` never writes an exponent and is how a value shows as text;
`Layout.json` is the number notation of JSON text.
-/

namespace SignalGraph.Decimal

/-- The decisions of a number format. -/
structure Layout where
  /-- Which of two equally near decimals is written. -/
  tie : Tie
  /-- What follows a number without fraction. -/
  wholeEnd : String
  /-- The positions of the decimal point, counted from the first digit, that are written without an
  exponent; `none` means all of them. -/
  positional : Option (Int × Int)
  /-- What stands for NaN and the two infinities. -/
  nan : String
  infinity : String
  negativeInfinity : String

/-- Numbers as values show them: no exponent and no fraction that is not needed. -/
def Layout.plain : Layout :=
  { tie := .up, wholeEnd := "", positional := none
    nan := "NaN", infinity := "inf", negativeInfinity := "-inf" }

/-- Numbers in JSON text: a whole number keeps `.0`, the point lies from five places before the
first digit to sixteen after it, an exponent has a sign, and what is not finite is `null`. -/
def Layout.json : Layout :=
  { tie := .even, wholeEnd := ".0", positional := some (-4, 16)
    nan := "null", infinity := "null", negativeInfinity := "null" }

/-- So many zeros. -/
def zeros (n : Nat) : List Char :=
  List.replicate n '0'

/-- Digits with the point after `point` of them, filled up with zeros on either side. -/
def positionalChars (wholeEnd : List Char) (digits : List Char) (point : Int) : List Char :=
  if point ≤ 0 then '0' :: '.' :: (zeros point.natAbs ++ digits)
  else
    let p := point.natAbs
    if digits.length ≤ p then digits ++ zeros (p - digits.length) ++ wholeEnd
    else digits.take p ++ '.' :: digits.drop p

/-- The exponent of ten with its mark, always with a sign. -/
def exponentChars (exponent : Int) : List Char :=
  'e' :: (if exponent < 0 then '-' else '+') :: Nat.toDigits 10 exponent.natAbs

/-- Digits with the point after the first one, and an exponent. -/
def exponentialChars (digits : List Char) (point : Int) : List Char :=
  let exponent := exponentChars (point - 1)
  match digits with
  | [] => exponent
  | [d] => d :: exponent
  | d :: ds => d :: '.' :: (ds ++ exponent)

/-- The text of decimal digits under a layout. -/
def Layout.digitChars (l : Layout) (d : Digits) : List Char :=
  let digits := Nat.toDigits 10 d.mantissa
  let point := digits.length + d.exponent
  match l.positional with
  | none => positionalChars l.wholeEnd.toList digits point
  | some (low, high) =>
    if low ≤ point && point ≤ high then positionalChars l.wholeEnd.toList digits point
    else exponentialChars digits point

/-- The text of a number under a layout. -/
def Layout.write (l : Layout) (x : Float) : String :=
  if x.isNaN then l.nan
  else if !x.isFinite then if isNegative x then l.negativeInfinity else l.infinity
  else
    let body :=
      if x == 0.0 then '0' :: l.wholeEnd.toList else l.digitChars (shortest l.tie x)
    String.ofList (if isNegative x then '-' :: body else body)

end SignalGraph.Decimal
