import SignalGraph.Node.Reaction

/-!
# Gates

Nodes whose output is a truth value that depends on the levels of the inputs alone.
-/

namespace SignalGraph

/-- A gate with two inputs. -/
inductive Gate where
  | and
  | or
  | xor
  deriving DecidableEq, Repr, Inhabited

/-- The output of a gate. -/
def Gate.output (g : Gate) (a b : Value) : Value :=
  .bool <|
    match g with
    | .and => a.truth && b.truth
    | .or => a.truth || b.truth
    | .xor => a.truth != b.truth

/-- The output of an inverter. -/
def invert (a : Value) : Value :=
  .bool !a.truth

end SignalGraph
