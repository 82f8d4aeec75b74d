import SignalGraph.Node.Params

/-!
# Comparisons

A comparison node compares its first input with its second one, or with a fixed value while the
second input is `null`. An order compares numbers, and what has no numeric form counts as zero.
Equality compares numbers if both sides have a numeric form and texts otherwise.
-/

namespace SignalGraph

/-- How two values are compared. -/
inductive Relation where
  | gt | ge | lt | le | eq | ne
  deriving DecidableEq, Repr, Inhabited

namespace Relation

/-- The relation that a word or sign names, in any case. -/
def ofName? (name : String) : Option Relation :=
  match Text.lower (Text.trim name) with
  | "gt" | ">" => some .gt
  | "ge" | "gte" | ">=" => some .ge
  | "lt" | "<" => some .lt
  | "le" | "lte" | "<=" => some .le
  | "eq" | "=" | "==" => some .eq
  | "ne" | "neq" | "!=" | "<>" => some .ne
  | _ => none

/-- Equality of values across kinds. -/
def equal (a b : Value) : Bool :=
  match a.number?, b.number? with
  | some x, some y => x == y
  | _, _ => a.same b || a.text == b.text

/-- Whether two values are related. -/
def holds (r : Relation) (a b : Value) : Bool :=
  match r with
  | .eq => equal a b
  | .ne => !equal a b
  | .gt => a.numberOr 0.0 > b.numberOr 0.0
  | .ge => a.numberOr 0.0 >= b.numberOr 0.0
  | .lt => a.numberOr 0.0 < b.numberOr 0.0
  | .le => a.numberOr 0.0 <= b.numberOr 0.0

end Relation

/-- A comparison node. -/
structure Comparison where
  relation : Relation
  /-- What stands in for the second input while it is `null`. -/
  fallback : Value
  deriving Inhabited

namespace Comparison

/-- The comparison that parameters describe. -/
def ofParams (p : Params) : Except ConfigError Comparison := do
  let relation ←
    match ← p.text? "op" with
    | none => pure Relation.gt
    | some name =>
      match Relation.ofName? name with
      | some r => pure r
      | none => p.invalid "op" .notComparison
  return { relation := relation, fallback := (p.value? "value").getD .null }

/-- The output for two inputs. -/
def output (c : Comparison) (a b : Value) : Value :=
  .bool (c.relation.holds a (if b.isNull then c.fallback else b))

end Comparison

end SignalGraph
