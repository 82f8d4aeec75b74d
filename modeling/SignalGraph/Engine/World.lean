import SignalGraph.Config.Declaration
import SignalGraph.Host.Basic
import SignalGraph.Node.Reaction

/-!
# The world of the engine

What all graphs share: the host, the timeline, and the queue of events that wait to be handled. A
change that the host reports from inside a call joins the queue if its signal is registered at that
moment, and is dropped otherwise.
-/

namespace SignalGraph

/-- Something that happens to the engine. -/
inductive Event where
  | change (c : Change)
  | timer (fire : Fire)
  deriving Inhabited

/-- Where armed timers wait. -/
inductive TimerService where
  /-- On the timeline of the clock. -/
  | shared
  /-- On a timeline of their own; the clock stands still. -/
  | separate (timeline : Timeline Fire)
  /-- Nowhere: timers never fire. -/
  | inert

/-- What all graphs share. -/
structure World (H : Type) where
  host : H
  /-- The clock, with the timers that wait on it. -/
  clock : Timeline Fire
  service : TimerService := .shared
  /-- The token of the next arming. -/
  nextToken : Nat := 1
  /-- The signals whose changes are accepted. -/
  registered : List String := []
  /-- The accepted events that wait, the next one first. -/
  queue : List Event := []

namespace World

variable {H : Type}

/-! ### Host calls -/

/-- Accepts a reported change if its signal is registered. -/
def accept (w : World H) (c : Change) : World H :=
  if w.registered.contains c.signal then { w with queue := w.queue ++ [.change c] } else w

/-- The world after a host call. -/
def afterCall {α : Type} (w : World H) (reply : Reply H α) : World H :=
  reply.reports.foldl accept { w with host := reply.host }

variable [Host H]

def subscribe (w : World H) (signal : String) : World H :=
  w.afterCall (Host.subscribe w.host signal)

def unsubscribe (w : World H) (signal : String) : World H :=
  w.afterCall (Host.unsubscribe w.host signal)

def read (w : World H) (signal : String) : Option Value × World H :=
  let reply := Host.read w.host signal
  (reply.answer, w.afterCall reply)

/-- Writes a value. Whether the host succeeds makes no difference. -/
def write (w : World H) (signal : String) (value : Value) (ack : Bool) : World H :=
  w.afterCall (Host.write w.host signal value ack)

def resolve (w : World H) (scene : String) : Option String × World H :=
  let reply := Host.resolve w.host scene
  (reply.answer, w.afterCall reply)

/-! ### Time -/

omit [Host H]

/-- The timeline on which timers wait. -/
def timeline (w : World H) : Timeline Fire :=
  match w.service with
  | .separate t => t
  | .shared | .inert => w.clock

/-- The world with another timeline for timers. -/
def withTimeline (w : World H) (t : Timeline Fire) : World H :=
  match w.service with
  | .separate _ => { w with service := .separate t }
  | .shared | .inert => { w with clock := t }

/-- What a node sees of the time. -/
def reading (w : World H) (settings : Settings) : Reading :=
  let now := w.clock.localNow
  { localNow := now
    absoluteNow := w.clock.absoluteNow
    untilTick := now.untilNextMinute + settings.minuteGrace }

/-- Schedules a timer; without a ticket if timers never fire. -/
def schedule (w : World H) (delay : Nat) (fire : Fire) : Option Ticket × World H :=
  match w.service with
  | .inert => (none, w)
  | _ =>
    let (t, ticket) := w.timeline.schedule delay fire
    (some ticket, w.withTimeline t)

/-- Cancels a timer that a node has armed. -/
def cancelTimer (w : World H) (timer : ArmedTimer) : World H :=
  match timer.ticket with
  | some ticket => w.withTimeline (w.timeline.cancel ticket)
  | none => w

/-- Cancels the timer of a node under a key, if there is one. -/
def disarm (w : World H) (timers : ArmedTimers) (key : TimerKey) : ArmedTimers × World H :=
  match timers.find? key with
  | some timer => (timers.remove key, w.cancelTimer timer)
  | none => (timers, w)

/-- Arms a timer of a node with a fresh token, in place of one under the same key. -/
def arm (w : World H) (generation : Nat) (graph node : String) (timers : ArmedTimers)
    (key : TimerKey) (delay : Nat) : ArmedTimers × World H :=
  let (timers, w) := w.disarm timers key
  let token := w.nextToken
  let (ticket, w) :=
    { w with nextToken := token + 1 }.schedule delay ⟨generation, graph, node, key, token⟩
  (timers ++ [⟨key, token, ticket⟩], w)

end World

end SignalGraph
