import SignalGraph.Node.Edge

/-!
# Latches

Nodes that keep one truth value: a toggle, which flips it at every edge, and a set/reset latch.
-/

namespace SignalGraph

/-- A node that flips its output at every edge of `in`, and holds it false while `reset` is true. -/
structure Toggle where
  kind : EdgeKind
  state : Bool
  /-- The level of `in` at the last evaluation. -/
  level : Bool := false
  deriving DecidableEq, Repr, Inhabited

namespace Toggle

/-- The toggle that parameters describe. -/
def ofParams (p : Params) : Except ConfigError Toggle := do
  return { kind := ← EdgeKind.ofParams p .rising, state := ← p.flagOr "initial" false }

/-- The state after an evaluation on the levels of `in` and `reset`. -/
def step (t : Toggle) (now reset : Bool) : Toggle :=
  let edge := t.kind.isEdge t.level now
  { t with level := now, state := if reset then false else if edge then !t.state else t.state }

def react (t : Toggle) (v : View) : Reaction Toggle :=
  let next := t.step (v.level 0) (v.level 1)
  .out next (.bool next.state)

end Toggle

/-- A latch that `s` sets and `r` resets. -/
structure SetReset where
  /-- Whether setting wins while both inputs are true. -/
  setWins : Bool
  state : Bool := false
  deriving DecidableEq, Repr, Inhabited

namespace SetReset

/-- The latch that parameters describe. -/
def ofParams (p : Params) : Except ConfigError SetReset := do
  match ← p.text? "priority" with
  | none => return { setWins := false }
  | some name =>
    match Text.lower name with
    | "r" | "reset" => return { setWins := false }
    | "s" | "set" => return { setWins := true }
    | _ => p.invalid "priority" .notPriority

/-- The state after an evaluation on the levels of `s` and `r`. -/
def step (l : SetReset) (set reset : Bool) : SetReset :=
  { l with
    state :=
      match set, reset with
      | true, true => l.setWins
      | true, false => true
      | false, true => false
      | false, false => l.state }

def react (l : SetReset) (v : View) : Reaction SetReset :=
  let next := l.step (v.level 0) (v.level 1)
  .out next (.bool next.state)

end SetReset

end SignalGraph
