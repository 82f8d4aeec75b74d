import SignalGraph.Node.Edge

/-!
# Counters

Nodes that count the rises of their inputs.
-/

namespace SignalGraph

open Decimal

/-- A node that counts the rises of `in`, and also gives the count times a factor. A rise of `reset`
starts anew and covers a rise of `in` at the same time. -/
structure ImpulseCounter where
  factor : Float
  decimals : Nat
  count : Nat := 0
  /-- The levels of the inputs at the last evaluation. -/
  level : Bool := false
  resetLevel : Bool := false
  deriving Inhabited

namespace ImpulseCounter

/-- The counter that parameters describe. -/
def ofParams (p : Params) : Except ConfigError ImpulseCounter := do
  return { factor := ← p.numberOr "factor" 1.0, decimals := (← p.decimals? "decimals").getD 3 }

/-- The counter after an evaluation on the levels of `in` and `reset`. -/
def step (c : ImpulseCounter) (now reset : Bool) : ImpulseCounter :=
  { c with
    level := now
    resetLevel := reset
    count :=
      if isRise c.resetLevel reset then 0
      else if isRise c.level now then c.count + 1
      else c.count }

/-- The values of the outputs: the count, and the count times the factor. -/
def outputs (c : ImpulseCounter) : List Value :=
  let count := Float.ofNat c.count
  [.num count, .num (roundTo (count * c.factor) c.decimals)]

def react (c : ImpulseCounter) (v : View) : Reaction ImpulseCounter :=
  let next := c.step (v.level 0) (v.level 1)
  { state := next, outputs := next.outputs }

end ImpulseCounter

/-- A node that counts up and down within optional bounds. -/
structure Counter where
  increment : Float
  low : Option Float
  high : Option Float
  initial : Float
  count : Float
  /-- The levels of the inputs at the last evaluation. -/
  upLevel : Bool := false
  downLevel : Bool := false
  resetLevel : Bool := false
  deriving Inhabited

namespace Counter

/-- A number raised to the lower bound and then lowered to the upper one, where they are given. -/
def bounded (low high : Option Float) (x : Float) : Float :=
  let raised := match low with
    | some l => greater x l
    | none => x
  match high with
  | some h => lesser raised h
  | none => raised

/-- The counter that parameters describe. -/
def ofParams (p : Params) : Except ConfigError Counter := do
  let low ← p.number? "min"
  let high ← p.number? "max"
  match low, high with
  | some l, some h => if l > h then p.invalid "max" .belowMin
  | _, _ => pure ()
  let initial ← p.numberOr "initial" 0.0
  return { increment := ← p.numberOr "step" 1.0, low := low, high := high, initial := initial
           count := bounded low high initial }

/-- The count after an evaluation that does not reset it. -/
def moved (c : Counter) (up down : Bool) : Float :=
  let raised := if up then c.count + c.increment else c.count
  if down then raised - c.increment else raised

/-- The counter after an evaluation on the levels of `up`, `down` and `reset`. -/
def step (c : Counter) (up down reset : Bool) : Counter :=
  { c with
    upLevel := up
    downLevel := down
    resetLevel := reset
    count :=
      bounded c.low c.high <|
        if isRise c.resetLevel reset then c.initial
        else c.moved (isRise c.upLevel up) (isRise c.downLevel down) }

def react (c : Counter) (v : View) : Reaction Counter :=
  let next := c.step (v.level 0) (v.level 1) (v.level 2)
  .out next (.num next.count)

end Counter

end SignalGraph
