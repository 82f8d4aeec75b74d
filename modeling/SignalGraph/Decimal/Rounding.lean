/-!
# Rounding and limiting

Rounding to whole numbers and to fixed decimals, where a half goes away from zero, and the smaller,
the greater and the limited of given numbers, where NaN loses against any number.
-/

namespace SignalGraph.Decimal

/-- From `2 ^ 52` on every binary64 number is whole. -/
def wholeFrom : Float := 4503599627370496.0

/-- The whole number nearest to a magnitude below `wholeFrom`, a half going up. -/
def roundMagnitude (x : Float) : Float :=
  let whole := x.toUInt64
  if x - whole.toFloat < 0.5 then whole.toFloat else (whole + 1).toFloat

/-- The whole number nearest to `x`, a half going away from zero. The sign stays, also that of a
zero, and so do NaN and the infinities. -/
def roundHalfAway (x : Float) : Float :=
  if x.abs < wholeFrom then
    if x < 0.0 then -roundMagnitude (-x) else if x > 0.0 then roundMagnitude x else x
  else x

/-- Multiplies `product` by `base ^ n`, where `n` has at most so many binary digits: for each binary
one of `n`, from the lowest on, by the power of `base` that repeated squaring has reached. -/
def timesPower : Nat → Float → Float → Nat → Float
  | 0, product, _, _ => product
  | digits + 1, product, base, n =>
    timesPower digits (if n % 2 = 1 then product * base else product) (base * base) (n / 2)

/-- The power of ten `10 ^ n` for `|n| < 2 ^ 32`, computed by repeated squaring and exact for
`0 ≤ n ≤ 22`; a negative power is the reciprocal of the positive one. -/
def powerOfTen (n : Int) : Float :=
  let power := timesPower 32 1.0 10.0 n.natAbs
  if n < 0 then 1.0 / power else power

/-- Rounds to a fixed number of decimals. The number of decimals is a word of 32 bits with a sign,
so `2 ^ 32 - 1` decimals round to tens. -/
def roundTo (x : Float) (decimals : Nat) : Float :=
  let factor := powerOfTen (Int.bmod decimals (Nat.pow 2 32))
  roundHalfAway (x * factor) / factor

/-- The smaller of two numbers: the second of equal ones, and the other one if one is NaN. -/
def lesser (x y : Float) : Float :=
  if y.isNaN then x else if x < y then x else y

/-- The greater of two numbers: the second of equal ones, and the other one if one is NaN. -/
def greater (x y : Float) : Float :=
  if y.isNaN then x else if x > y then x else y

/-- The number of the interval from `low` to `high` nearest to `x`; NaN stays NaN. -/
def limit (x low high : Float) : Float :=
  let raised := if x < low then low else x
  if raised > high then high else raised

end SignalGraph.Decimal
