import SignalGraph.Node.Edge

/-!
# Pulses

Nodes whose output is true for a fixed time after an edge. Each of them keeps at most one timer,
under the key `TimerKey.main`.
-/

namespace SignalGraph

/-- A node that gives one pulse at an edge and ignores edges during the pulse. -/
structure Pulse where
  duration : Nat
  kind : EdgeKind
  /-- The level at the last evaluation. -/
  level : Bool := false
  deriving DecidableEq, Repr, Inhabited

namespace Pulse

/-- The pulse that parameters describe. -/
def ofParams (p : Params) : Except ConfigError Pulse := do
  return { duration := ← p.durationOr "duration_ms" 1000, kind := ← EdgeKind.ofParams p .rising }

def react (p : Pulse) (v : View) : Reaction Pulse :=
  match v.trigger with
  | .timer .main => .out p (.bool false)
  | _ =>
    let now := v.level 0
    let next := { p with level := now }
    if p.kind.isEdge p.level now && !v.isArmed .main then
      .out next (.bool true) [.arm .main p.duration]
    else .out next (settled (v.output 0))

end Pulse

/-- A staircase light: each rise of `in` switches it on and starts its time anew, and a rise of
`off` switches it off. -/
structure Staircase where
  duration : Nat
  /-- The level of `in` at the last evaluation. -/
  level : Bool := false
  /-- The level of `off` at the last evaluation. -/
  offLevel : Bool := false
  deriving DecidableEq, Repr, Inhabited

namespace Staircase

/-- The staircase light that parameters describe. -/
def ofParams (p : Params) : Except ConfigError Staircase := do
  return { duration := ← p.durationOr "duration_ms" 180000 }

def react (s : Staircase) (v : View) : Reaction Staircase :=
  match v.trigger with
  | .timer .main => .out s (.bool false)
  | _ =>
    let now := v.level 0
    let off := v.level 1
    let next := { s with level := now, offLevel := off }
    if isRise s.offLevel off then .out next (.bool false) [.cancel .main]
    else if isRise s.level now then .out next (.bool true) [.arm .main s.duration]
    else .out next (settled (v.output 0))

end Staircase

end SignalGraph
