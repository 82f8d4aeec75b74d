import SignalGraph.Node.Edge

/-!
# Operating hours

A meter adds up the hours during which `run` is true. While it runs it is evaluated every minute.
Only finished runs are added to the total; the current one is measured anew at every evaluation.
-/

namespace SignalGraph

open Decimal

/-- An operating-hours meter. -/
structure HourMeter where
  decimals : Nat
  /-- The hours of the finished runs. -/
  total : Float
  /-- When the current run started. -/
  runningSince : Option Moment := none
  /-- The level of `reset` at the last evaluation. -/
  resetLevel : Bool := false
  deriving Inhabited

namespace HourMeter

/-- The meter that parameters describe. -/
def ofParams (p : Params) : Except ConfigError HourMeter := do
  let initial ← p.numberOr "initial_hours" 0.0
  if initial < 0.0 then p.invalid "initial_hours" .negative
  return { decimals := (← p.decimals? "decimals").getD 2, total := initial }

/-- The hours between two moments, zero if they are the wrong way round. -/
def hoursBetween (start now : Moment) : Float :=
  Float.ofNat (now.millisSince start) / 3600000.0

/-- The meter after a rise of `reset`. -/
def cleared (m : HourMeter) (run : Bool) (now : Moment) : HourMeter :=
  { m with total := 0.0, runningSince := if run then some now else none }

/-- The meter and its reading after the level of `run` is known. -/
def measured (m : HourMeter) (run : Bool) (now : Moment) : HourMeter × Float :=
  match run, m.runningSince with
  | true, some since => (m, m.total + hoursBetween since now)
  | true, none => ({ m with runningSince := some now }, m.total)
  | false, some since =>
    let total := m.total + hoursBetween since now
    ({ m with total := total, runningSince := none }, total)
  | false, none => (m, m.total)

/-- The meter and its reading after an evaluation. -/
def step (m : HourMeter) (run reset : Bool) (now : Moment) : HourMeter × Float :=
  let started := if isRise m.resetLevel reset then m.cleared run now else m
  measured { started with resetLevel := reset } run now

def react (m : HourMeter) (v : View) : Reaction HourMeter :=
  let run := v.level 0
  let (next, hours) := m.step run (v.level 1) v.reading.absoluteNow
  .out next (.num (roundTo hours m.decimals))
    [if run then .arm .tick v.reading.untilTick else .cancel .tick]

end HourMeter

end SignalGraph
