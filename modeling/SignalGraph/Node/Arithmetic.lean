import SignalGraph.Node.Params

/-!
# Arithmetic

Nodes that compute with numbers: the operations on two inputs, the limitation to a range and the
linear mapping of one range onto another.
-/

namespace SignalGraph

open Decimal

/-- Why an evaluation fails. -/
inductive EvalError where
  | divisionByZero
  | nonFinite (operation : String)
  deriving DecidableEq, Repr

/-- The text of an evaluation error. -/
def EvalError.message : EvalError → String
  | .divisionByZero => "division by zero"
  | .nonFinite operation => "`" ++ operation ++ "` produced a non-finite result"

/-! ### Operations on two numbers -/

/-- An operation on two numbers. -/
inductive Operation where
  | add | sub | mul | div | min | max
  deriving DecidableEq, Repr, Inhabited

namespace Operation

/-- The name of an operation. -/
def name : Operation → String
  | .add => "add"
  | .sub => "sub"
  | .mul => "mul"
  | .div => "div"
  | .min => "min"
  | .max => "max"

/-- The result of an operation before it is checked. -/
def result : Operation → Float → Float → Float
  | .add, x, y => x + y
  | .sub, x, y => x - y
  | .mul, x, y => x * y
  | .div, x, y => x / y
  | .min, x, y => lesser x y
  | .max, x, y => greater x y

/-- The result of an operation, if it is defined and finite. -/
def apply (o : Operation) (x y : Float) : Except EvalError Float :=
  if o = .div ∧ y == 0.0 then .error .divisionByZero
  else
    let r := o.result x y
    if r.isFinite then .ok r else .error (.nonFinite o.name)

/-- The output for two inputs; what has no numeric form counts as zero. -/
def output (o : Operation) (a b : Value) : Except EvalError Value :=
  (o.apply (a.numberOr 0.0) (b.numberOr 0.0)).map .num

end Operation

/-! ### Limitation -/

/-- A range to which a number is limited. -/
structure Clamp where
  low : Float
  high : Float
  deriving Inhabited

namespace Clamp

/-- The limitation that parameters describe. -/
def ofParams (p : Params) : Except ConfigError Clamp := do
  let low ← p.numberOr "min" 0.0
  let high ← p.numberOr "max" 100.0
  if low > high then p.invalid "max" .belowMin else return { low := low, high := high }

/-- The output for an input; what has no numeric form counts as the lower end. -/
def output (c : Clamp) (a : Value) : Value :=
  .num (limit (a.numberOr c.low) c.low c.high)

end Clamp

/-! ### Linear mapping -/

/-- A linear mapping of the range from `inLow` to `inHigh` onto that from `outLow` to `outHigh`. -/
structure Scale where
  inLow : Float
  inHigh : Float
  outLow : Float
  outHigh : Float
  /-- Whether the result is kept within the output range. -/
  clamp : Bool
  /-- How many decimals the result is rounded to. -/
  decimals : Option Nat
  deriving Inhabited

namespace Scale

/-- Two ranges: input from and to, output from and to. -/
abbrev Ranges := Float × Float × Float × Float

/-- The ranges with a name. -/
def presets : List (String × Ranges) :=
  [("0-255:0-100", 0.0, 255.0, 0.0, 100.0), ("0-100:0-255", 0.0, 100.0, 0.0, 255.0),
    ("0-1:0-100", 0.0, 1.0, 0.0, 100.0), ("0-100:0-1", 0.0, 100.0, 0.0, 1.0),
    ("0-1000:0-1", 0.0, 1000.0, 0.0, 1.0)]

/-- The ranges given one by one. -/
def customRanges (p : Params) : Except ConfigError Ranges := do
  return (← p.numberOr "in_min" 0.0, ← p.numberOr "in_max" 100.0,
    ← p.numberOr "out_min" 0.0, ← p.numberOr "out_max" 100.0)

/-- The ranges by name or one by one. -/
def readRanges (p : Params) : Except ConfigError Ranges := do
  match ← p.text? "preset" with
  | none => customRanges p
  | some name =>
    if name = "custom" then customRanges p
    else
      match presets.find? (fun preset => preset.1 == name) with
      | some (_, ranges) => return ranges
      | none => p.invalid "preset" (.unknownPreset name)

/-- The mapping that parameters describe. -/
def ofParams (p : Params) : Except ConfigError Scale := do
  let (inLow, inHigh, outLow, outHigh) ← readRanges p
  return { inLow := inLow, inHigh := inHigh, outLow := outLow, outHigh := outHigh
           clamp := ← p.flagOr "clamp" false
           decimals := ← p.decimals? "decimals" }

/-- The linear mapping; an empty input range is mapped to the start of the output range. -/
def linear (s : Scale) (x : Float) : Float :=
  let span := s.inHigh - s.inLow
  if span == 0.0 then s.outLow else s.outLow + (x - s.inLow) * (s.outHigh - s.outLow) / span

/-- The result within the output range, if that is asked for. -/
def clamped (s : Scale) (y : Float) : Float :=
  if !s.clamp then y
  else if s.outLow <= s.outHigh then limit y s.outLow s.outHigh
  else limit y s.outHigh s.outLow

/-- The number that a number is mapped to. -/
def apply (s : Scale) (x : Float) : Float :=
  let y := s.clamped (s.linear x)
  match s.decimals with
  | some d => roundTo y d
  | none => y

/-- The output for an input, if it has a numeric form. -/
def output? (s : Scale) (a : Value) : Option Value :=
  a.number?.map fun x => .num (s.apply x)

end Scale

end SignalGraph
