import SignalGraph.Dictionary
import SignalGraph.Timer.Timeline

/-!
# Scripts for timers

A script schedules and cancels labelled timers, and what a timer does when it fires is a script
again. An `Agenda` runs scripts on a timeline and records what has fired.
-/

namespace SignalGraph

/-- A step of a script. -/
inductive Instruction where
  /-- Schedules a timer with the script to run when it fires. -/
  | schedule (label : String) (delay : Nat) (script : List Instruction)
  /-- Cancels the timer that was last scheduled under a label. -/
  | cancel (label : String)
  deriving Inhabited

/-- A timeline for scripts. -/
structure Agenda where
  timeline : Timeline (String × List Instruction)
  /-- The last ticket of each label, also after its timer has fired, until it is cancelled. -/
  tickets : Dictionary Ticket := []
  /-- What has fired and when, the last first. -/
  fired : List (String × Nat) := []

namespace Agenda

/-- Runs one instruction. -/
def perform (a : Agenda) : Instruction → Agenda
  | .schedule label delay script =>
    let (timeline, ticket) := a.timeline.schedule delay (label, script)
    { a with timeline := timeline, tickets := a.tickets.insert label ticket }
  | .cancel label =>
    match a.tickets.find? label with
    | some ticket =>
      { a with timeline := a.timeline.cancel ticket, tickets := a.tickets.erase label }
    | none => a

/-- Records that a timer fires and runs its script. -/
def fire (a : Agenda) (callback : String × List Instruction) : Agenda :=
  callback.2.foldl perform { a with fired := (callback.1, a.timeline.elapsed) :: a.fired }

/-- An agenda owns its timeline. -/
def owner : Owner Agenda (String × List Instruction) :=
  { timeline := Agenda.timeline
    withTimeline := fun a t => { a with timeline := t }
    fire := fun a callback => some (a.fire callback) }

/-- Lets time pass; undefined if more than `limit` timers would fire. -/
def advance (limit millis : Nat) (a : Agenda) : Option (Nat × Agenda) :=
  owner.advance limit millis a

end Agenda

end SignalGraph
