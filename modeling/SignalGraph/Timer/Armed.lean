import SignalGraph.Timer.Key
import SignalGraph.Timer.Timeline

/-!
# The timers of a node

The timers that a node has armed, at most one under each key.
-/

namespace SignalGraph

/-- A timer that a node has armed. -/
structure ArmedTimer where
  key : TimerKey
  /-- The token of this arming. -/
  token : Nat
  /-- How to cancel it; `none` if it was never scheduled. -/
  ticket : Option Ticket
  deriving DecidableEq, Repr

/-- The timers that a node has armed. -/
abbrev ArmedTimers := List ArmedTimer

namespace ArmedTimers

def isArmed (timers : ArmedTimers) (key : TimerKey) : Bool :=
  timers.any fun t => t.key == key

/-- The timer under a key. -/
def find? (timers : ArmedTimers) (key : TimerKey) : Option ArmedTimer :=
  List.find? (fun t => t.key == key) timers

/-- Forgets the timer under a key. -/
def remove (timers : ArmedTimers) (key : TimerKey) : ArmedTimers :=
  timers.eraseP fun t => t.key == key

/-- Forgets the timer that has just fired; `none` unless this very arming is still in force. -/
def takeFired? (timers : ArmedTimers) (key : TimerKey) (token : Nat) : Option ArmedTimers :=
  let fired (t : ArmedTimer) := t.key == key && t.token == token
  if timers.any fired then some (timers.eraseP fired) else none

end ArmedTimers

end SignalGraph
