import SignalGraph.Config.Declaration
import SignalGraph.Config.Error
import SignalGraph.Decimal.Rounding
import SignalGraph.Json.Printer

/-!
# Parameters of a node

Typed access to the parameters of one node. A parameter that is absent or `null` takes its default;
one of the wrong kind is an error that names the node and the parameter.
-/

namespace SignalGraph

/-- The parameters of a node, with its id for error reports. -/
structure Params where
  node : String
  table : ParamTable

namespace Params

open Decimal

/-- The error for a refused parameter. -/
def invalid {α : Type} (p : Params) (key : String) (fault : ParamFault) : Except ConfigError α :=
  .error (.invalidParam p.node key fault)

/-- A parameter as written, unless it is absent or `null`. -/
def raw? (p : Params) (key : String) : Option Json :=
  (p.table.find? key).filter fun j => !j.isNull

/-- A parameter as a value. -/
def value? (p : Params) (key : String) : Option Value :=
  (p.raw? key).map Value.ofJson

/-- A finite number or a text that writes one. -/
def number? (p : Params) (key : String) : Except ConfigError (Option Float) :=
  match p.raw? key with
  | none => .ok none
  | some (.int i) => .ok (some (Json.floatOfInt i))
  | some (.float x) => if x.isFinite then .ok (some x) else p.invalid key .notFinite
  | some (.str s) =>
    match parseNumber? s with
    | some x => .ok (some x)
    | none => p.invalid key .notNumber
  | some _ => p.invalid key .notNumber

def numberOr (p : Params) (key : String) (default : Float) : Except ConfigError Float :=
  return (← p.number? key).getD default

/-- The whole number nearest to a number that is not negative, at most `2 ^ 64 - 1`. -/
def milliseconds (x : Float) : Nat :=
  (roundHalfAway x).toUInt64.toNat

/-- A number of milliseconds, which must not be negative. -/
def durationOr (p : Params) (key : String) (default : Nat) : Except ConfigError Nat := do
  match ← p.number? key with
  | none => return default
  | some x => if x >= 0.0 then return milliseconds x else p.invalid key .negative

/-- A truth value, or a number or text that casts to one. -/
def flagOr (p : Params) (key : String) (default : Bool) : Except ConfigError Bool :=
  match p.raw? key with
  | none => .ok default
  | some (.array _) | some (.object _) => p.invalid key .notBoolean
  | some j => .ok (Value.ofJson j).truth

/-- A text without the blanks around it, or a number as text; a blank text counts as absent. -/
def text? (p : Params) (key : String) : Except ConfigError (Option String) :=
  match p.raw? key with
  | none => .ok none
  | some (.str s) =>
    let trimmed := Text.trim s
    .ok (if trimmed.isEmpty then none else some trimmed)
  | some (.int i) => .ok (some (Json.int i).print)
  | some (.float x) => .ok (some (Json.float x).print)
  | some _ => p.invalid key .notText

def requiredText (p : Params) (key : String) : Except ConfigError String := do
  match ← p.text? key with
  | some s => return s
  | none => p.invalid key .missing

/-- A number of decimals to round to, at most ten. -/
def decimals? (p : Params) (key : String) : Except ConfigError (Option Nat) := do
  match ← p.number? key with
  | none => return none
  | some x =>
    let n := x.toUInt64
    if x >= 0.0 && x <= 10.0 && n.toFloat == x then return some n.toNat
    else p.invalid key .notDecimals

end Params

end SignalGraph
