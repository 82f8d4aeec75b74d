/-!
# The fewest digits that read back

A finite binary64 number other than zero is `mantissa · 2 ^ exponent`, and the real numbers that
round to it form an interval around it, which includes its ends exactly when the mantissa is even.
`shortest` finds the decimal with the fewest digits inside the interval and, of those, the nearest:
for 1, 2, … digits it looks at the two neighbours of the number on the decimal grid of that
many digits.
-/

namespace SignalGraph.Decimal

/-- The magnitude of a finite binary64 number: `mantissa · 2 ^ exponent`. -/
structure Magnitude where
  mantissa : Nat
  exponent : Int
  /-- Whether the next smaller number is only half as far away as the next greater one. -/
  narrowBelow : Bool
  deriving DecidableEq, Repr

/-- Whether a number is written with a minus sign. -/
def isNegative (x : Float) : Bool :=
  x.toBits.toNat / Nat.pow 2 63 == 1

/-- The magnitude of a finite number, from its exponent field (11 bits) and fraction (52 bits). -/
def Magnitude.ofFloat (x : Float) : Magnitude :=
  let bits : Nat := x.toBits.toNat
  let field : Nat := bits / Nat.pow 2 52 % Nat.pow 2 11
  let fraction : Nat := bits % Nat.pow 2 52
  if field = 0 then ⟨fraction, -1074, false⟩
  else ⟨Nat.pow 2 52 + fraction, (field : Int) - 1075, fraction == 0 && 1 < field⟩

/-- The digits of `mantissa · 10 ^ exponent`. -/
structure Digits where
  mantissa : Nat
  exponent : Int
  deriving DecidableEq, Repr

/-- A fraction `numerator / denominator` for `n · 2 ^ e`. -/
def scaleByTwo (n : Nat) (e : Int) : Nat × Nat :=
  if e < 0 then (n, Nat.pow 2 e.natAbs) else (n * Nat.pow 2 e.natAbs, 1)

/-- An interval around a number, as three natural numbers over one denominator. -/
structure Interval where
  low : Nat
  value : Nat
  high : Nat
  /-- Whether the ends belong to the interval. -/
  closed : Bool
  /-- The common denominator of the three. -/
  denominator : Nat

/-- The reals that round to a magnitude. In units of a quarter of the distance to the next greater
number, the number and both ends are whole. -/
def Magnitude.interval (m : Magnitude) : Interval :=
  let quarter := m.exponent - 2
  let below := if m.narrowBelow then 1 else 2
  { low := (scaleByTwo (4 * m.mantissa - below) quarter).1
    value := (scaleByTwo (4 * m.mantissa) quarter).1
    high := (scaleByTwo (4 * m.mantissa + 2) quarter).1
    closed := m.mantissa % 2 == 0
    denominator := (scaleByTwo 1 quarter).2 }

/-- The interval seen in units of `10 ^ k`. -/
def Interval.inUnits (i : Interval) (k : Int) : Interval :=
  if k < 0 then
    let f := Nat.pow 10 k.natAbs
    { i with low := i.low * f, value := i.value * f, high := i.high * f }
  else { i with denominator := i.denominator * Nat.pow 10 k.natAbs }

/-- Whether the whole number `n` lies in the interval. -/
def Interval.contains (i : Interval) (n : Nat) : Bool :=
  let x := n * i.denominator
  if i.closed then i.low ≤ x && x ≤ i.high else i.low < x && x < i.high

/-- Which of two equally near decimals is taken. -/
inductive Tie where
  /-- The greater one. -/
  | up
  /-- The one whose last digit is even. -/
  | even
  deriving DecidableEq, Repr

/-- The whole number in the interval nearest to its value, if one of the value's two neighbours
lies inside. -/
def Interval.nearest? (tie : Tie) (i : Interval) : Option Nat :=
  let below := i.value / i.denominator
  let above := below + 1
  let takeBelow :=
    match compare (2 * i.value) ((2 * below + 1) * i.denominator) with
    | .lt => true
    | .gt => false
    | .eq =>
      match tie with
      | .up => false
      | .even => below % 2 == 0
  match i.contains below && 0 < below, i.contains above with
  | true, true => some (if takeBelow then below else above)
  | true, false => some below
  | false, true => some above
  | false, false => none

/-- The least `k` with `n / d < 10 ^ k`, searched upwards from `k` for at most `fuel` steps. -/
def pointFrom (n d : Nat) : Nat → Int → Int
  | 0, k => k
  | fuel + 1, k =>
    let below := if k < 0 then n * Nat.pow 10 k.natAbs < d else n < d * Nat.pow 10 k.natAbs
    if below then k else pointFrom n d fuel (k + 1)

/-- A lower bound for the decimal point's position: `0.3 < log₁₀ 2`, and numbers below one have
`log₁₀ 2 < 0.31`. -/
def pointBound (n d : Nat) : Int :=
  let bits : Int := (Nat.log2 n : Int) - Nat.log2 d
  if bits < 0 then bits * 31 / 100 - 2 else bits * 3 / 10 - 2

/-- Drops trailing zeros from the mantissa, at most `fuel` of them. -/
def Digits.strip : Nat → Digits → Digits
  | 0, d => d
  | fuel + 1, d =>
    if d.mantissa % 10 = 0 && 0 < d.mantissa then
      Digits.strip fuel ⟨d.mantissa / 10, d.exponent + 1⟩
    else d

/-- Tries grids of ever more digits below the position `point`; seventeen digits always do. -/
def shortestFrom (tie : Tie) (i : Interval) (point : Int) : Nat → Nat → Digits
  | 0, _ => ⟨0, 0⟩
  | fuel + 1, count =>
    let k := point - count
    match (i.inUnits k).nearest? tie with
    | some n => Digits.strip 20 ⟨n, k⟩
    | none => shortestFrom tie i point fuel (count + 1)

/-- The fewest digits that read back as the magnitude of `x`, which is finite and not zero. -/
def shortest (tie : Tie) (x : Float) : Digits :=
  let i := (Magnitude.ofFloat x).interval
  let point := pointFrom i.value i.denominator 40 (pointBound i.value i.denominator)
  shortestFrom tie i point 17 1

end SignalGraph.Decimal
