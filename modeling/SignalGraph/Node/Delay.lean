import SignalGraph.Node.Params
import SignalGraph.Node.Reaction

/-!
# Delays

Nodes that pass one change of a level on at once and the other one only when it has lasted. Each of
them keeps at most one timer, under the key `TimerKey.main`.
-/

namespace SignalGraph

/-- A node whose output becomes true when the input has been true for `delay` milliseconds, and
false at once. -/
structure DelayOn where
  delay : Nat
  deriving DecidableEq, Repr, Inhabited

namespace DelayOn

/-- The delay that parameters describe. -/
def ofParams (p : Params) : Except ConfigError DelayOn := do
  return { delay := ← p.durationOr "delay_ms" 1000 }

def react (d : DelayOn) (v : View) : Reaction DelayOn :=
  let out := v.output 0
  match v.trigger with
  | .timer .main => .out d (if v.level 0 then .bool true else out)
  | _ =>
    if v.level 0 then
      .out d (settled out) (if !out.truth && !v.isArmed .main then [.arm .main d.delay] else [])
    else .out d (.bool false) [.cancel .main]

end DelayOn

/-- A node whose output becomes true at once, and false when the input has been false for `hold`
milliseconds. -/
structure DelayOff where
  hold : Nat
  deriving DecidableEq, Repr, Inhabited

namespace DelayOff

/-- The delay that parameters describe, the time under the given key. -/
def ofParams (p : Params) (key : String) : Except ConfigError DelayOff := do
  return { hold := ← p.durationOr key 1000 }

def react (d : DelayOff) (v : View) : Reaction DelayOff :=
  let out := v.output 0
  match v.trigger with
  | .timer .main => .out d (if v.level 0 then out else .bool false)
  | _ =>
    if v.level 0 then .out d (.bool true) [.cancel .main]
    else .out d (settled out) (if out.truth && !v.isArmed .main then [.arm .main d.hold] else [])

end DelayOff

end SignalGraph
