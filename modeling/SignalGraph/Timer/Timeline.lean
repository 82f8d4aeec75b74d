import SignalGraph.Calendar.Moment

/-!
# Timelines

A timeline is virtual time that moves only when told to, with timers that wait on it. They wait in
the order in which they are due, those due at once in the order in which they were scheduled. The
absolute time is the start plus what has elapsed; the local wall clock may be shifted against it.

`Owner.advance` lets time pass in a system that owns a timeline: it fires what falls due, one timer
after the other, with the clock at the due time of each; what fires may schedule and cancel timers.
-/

namespace SignalGraph

/-- What identifies a scheduled timer: when it is due, in milliseconds since the start, and its
number in the order of scheduling. -/
structure Ticket where
  due : Nat
  number : Nat
  deriving DecidableEq, Repr, Inhabited

/-- The order in which timers fire. -/
def Ticket.before (a b : Ticket) : Bool :=
  a.due < b.due || (a.due == b.due && a.number < b.number)

/-- Virtual time with timers that carry data of type `α`. -/
structure Timeline (α : Type) where
  start : Moment
  /-- Milliseconds since the start. -/
  elapsed : Nat := 0
  /-- Milliseconds by which the local wall clock is ahead of absolute time. -/
  localShift : Int := 0
  /-- The number of the next timer. -/
  nextNumber : Nat := 0
  /-- The waiting timers, in the order in which they fire. -/
  pending : List (Ticket × α) := []

namespace Timeline

variable {α : Type}

/-- The local wall clock. -/
def localNow (t : Timeline α) : Moment :=
  (t.start.addMillis t.elapsed).addMillis t.localShift

/-- Absolute time. -/
def absoluteNow (t : Timeline α) : Moment :=
  t.start.addMillis t.elapsed

/-- Moves the local wall clock alone. -/
def shiftLocal (t : Timeline α) (millis : Int) : Timeline α :=
  { t with localShift := t.localShift + millis }

/-- Puts a timer among the waiting ones. -/
def insertPending (ticket : Ticket) (a : α) : List (Ticket × α) → List (Ticket × α)
  | [] => [(ticket, a)]
  | entry :: rest =>
    if ticket.before entry.1 then (ticket, a) :: entry :: rest
    else entry :: insertPending ticket a rest

/-- Schedules a timer that is due after `delay` milliseconds. -/
def schedule (t : Timeline α) (delay : Nat) (a : α) : Timeline α × Ticket :=
  let ticket : Ticket := ⟨t.elapsed + delay, t.nextNumber⟩
  ({ t with nextNumber := t.nextNumber + 1, pending := insertPending ticket a t.pending }, ticket)

/-- Takes a timer away, if it still waits. -/
def cancel (t : Timeline α) (ticket : Ticket) : Timeline α :=
  { t with pending := t.pending.filter fun entry => entry.1 != ticket }

/-- The milliseconds until the first timer is due. -/
def nextDueIn? (t : Timeline α) : Option Nat :=
  t.pending.head?.map fun entry => entry.1.due - t.elapsed

/-- Takes the first timer that is due by `target`, and moves on to its due time. -/
def popDue? (t : Timeline α) (target : Nat) : Option (α × Timeline α) :=
  match t.pending with
  | [] => none
  | (ticket, a) :: rest =>
    if ticket.due ≤ target then
      some (a, { t with elapsed := max t.elapsed ticket.due, pending := rest })
    else none

/-- Moves on to `target`. -/
def reach (t : Timeline α) (target : Nat) : Timeline α :=
  { t with elapsed := max t.elapsed target }

end Timeline

/-- How a system of type `σ` owns a timeline and what a timer that fires does to it. The effect of a
fire may be undefined. -/
structure Owner (σ α : Type) where
  timeline : σ → Timeline α
  withTimeline : σ → Timeline α → σ
  fire : σ → α → Option σ

namespace Owner

variable {σ α : Type}

/-- Fires what is due by `target` and then moves on to it; adds the number of timers fired to
`fired`. Undefined if more than `limit` timers would fire. -/
def advanceTo (o : Owner σ α) (target : Nat) : Nat → Nat → σ → Option (Nat × σ)
  | limit, fired, s =>
    match (o.timeline s).popDue? target with
    | none => some (fired, o.withTimeline s ((o.timeline s).reach target))
    | some (a, t) =>
      match limit with
      | 0 => none
      | limit + 1 =>
        match o.fire (o.withTimeline s t) a with
        | none => none
        | some s => o.advanceTo target limit (fired + 1) s

/-- Lets so many milliseconds pass and gives the number of timers fired. -/
def advance (o : Owner σ α) (limit millis : Nat) (s : σ) : Option (Nat × σ) :=
  o.advanceTo ((o.timeline s).elapsed + millis) limit 0 s

end Owner

end SignalGraph
