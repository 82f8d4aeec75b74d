import SignalGraph.Proofs.Node.Accepted

/-!
# Checked evaluation

Some operations by which nodes are evaluated are partial. A number is limited only to bounds that
are in their order, a difference of durations must not be negative, sums and counts have a largest
value, and outputs and weekdays are looked up by number. Here each kind of node is evaluated with
operations that check this and give `none` where it fails.

`Behavior.react?_eq` says that no check fails: with parameters that meet `Behavior.Safe` and clock
readings in their range, the checked evaluation is the evaluation.
-/

namespace SignalGraph

open Decimal

/-! ### Partial operations -/

/-- A number limited to an interval that is not empty. -/
def Decimal.limit? (x low high : Float) : Option Float :=
  if low ≤ high then some (limit x low high) else none

/-- A number rounded to at most ten decimals. -/
def Decimal.roundTo? (x : Float) (decimals : Nat) : Option Float :=
  if decimals ≤ 10 then some (roundTo x decimals) else none

/-- A difference that is not negative. -/
def sub? (a b : Nat) : Option Nat :=
  if b ≤ a then some (a - b) else none

/-- The next number, as long as it is a word of 64 bits. -/
def succ? (n : Nat) : Option Nat :=
  if n + 1 < 2 ^ 64 then some (n + 1) else none

/-- Durations are shorter than this many milliseconds: their seconds are a word of 64 bits. -/
def durationLimit : Nat := 2 ^ 64 * 1000

def addDurations? (a b : Nat) : Option Nat :=
  if a + b < durationLimit then some (a + b) else none

/-- The first day that a date can name. -/
def firstDay : Int := dayOfDate (-262143) 1 1

namespace Moment

/-- A day earlier, if that is a date. -/
def dayBefore? (m : Moment) : Option Moment :=
  let before := m.addMillis (-(millisPerDay : Int))
  if firstDay ≤ before.day then some before else none

/-- The milliseconds until the next full minute. -/
def untilNextMinute? (m : Moment) : Option Nat :=
  sub? 60000 (m.time.second % 60 * 1000 + min (m.time.nanos / nanosPerMilli) 999)

end Moment

namespace Ports

/-- Sets an output port by name in the table of outputs; other names change nothing. -/
def set? (p : Ports) (port : String) (value : Value) : Option Ports :=
  match p.type.outputIndex? port with
  | none => some p
  | some i => if i < p.outputs.length then some (p.setOutputAt i value) else none

/-- Sets the output `out` to false if it is `null`. -/
def settle? (p : Ports) : Option Ports :=
  if (p.outputAt 0).isNull then p.set? "out" (.bool false) else some p

end Ports

/-- What the timer service adds to what a node sees. -/
structure Timing where
  /-- How many milliseconds after a full minute a tick is due. -/
  grace : Nat
  /-- The milliseconds since the timer service started. -/
  elapsed : Nat

namespace Timing

/-- When a timer with this delay is due. -/
def due? (t : Timing) (delay : Nat) : Option Nat :=
  addDurations? t.elapsed delay

/-- The command that arms a timer. -/
def arm? (t : Timing) (key : TimerKey) (delay : Nat) : Option Command :=
  (t.due? delay).map fun _ => .arm key delay

/-- The command that arms a timer, or none. -/
def armIf? (t : Timing) (needed : Bool) (key : TimerKey) (delay : Nat) : Option (List Command) :=
  if needed then (t.arm? key delay).map fun command => [command] else some []

/-- The command that arms the timer for the next tick. -/
def tick? (t : Timing) (now : Moment) : Option Command := do
  let delay ← addDurations? (← now.untilNextMinute?) t.grace
  t.arm? .tick delay

end Timing

/-- A reaction that leaves the outputs of these ports. -/
def Reaction.leave {σ : Type} (state : σ) (ports : Ports) (commands : List Command := []) :
    Reaction σ :=
  { state := state, outputs := ports.outputs, commands := commands }

namespace View

variable {σ : Type}

/-- The reaction that sets one output. -/
def set? (v : View) (state : σ) (port : String) (value : Value) (commands : List Command := []) :
    Option (Reaction σ) :=
  (v.ports.set? port value).map fun ports => .leave state ports commands

/-- The reaction that settles the output. -/
def settle? (v : View) (state : σ) (commands : List Command := []) : Option (Reaction σ) :=
  v.ports.settle?.map fun ports => .leave state ports commands

end View

/-! ### Checked kinds of nodes -/

namespace Scale

def clamped? (s : Scale) (y : Float) : Option Float :=
  if !s.clamp then some y
  else if s.outLow <= s.outHigh then limit? y s.outLow s.outHigh
  else limit? y s.outHigh s.outLow

def applied? (s : Scale) (x : Float) : Option Float := do
  let y ← s.clamped? (s.linear x)
  match s.decimals with
  | some d => roundTo? y d
  | none => some y

end Scale

namespace EdgeDetector

def onInputs? (e : EdgeDetector) (t : Timing) (v : View) : Option (Reaction EdgeDetector) :=
  let now := v.level 0
  let next := { e with level := now }
  if e.kind.isEdge e.level now then do
    let command ← t.arm? .reset e.pulse
    v.set? next "out" (.bool true) [command]
  else v.settle? next

def react? (e : EdgeDetector) (t : Timing) (v : View) : Option (Reaction EdgeDetector) :=
  match v.trigger with
  | .timer .reset => v.set? e "out" (.bool false)
  | _ => e.onInputs? t v

end EdgeDetector

def DelayOn.react? (d : DelayOn) (t : Timing) (v : View) : Option (Reaction DelayOn) :=
  match v.trigger with
  | .timer .main => if v.level 0 then v.set? d "out" (.bool true) else some (.keep d v)
  | _ =>
    if v.level 0 then do
      let commands ← t.armIf? (!(v.output 0).truth && !v.isArmed .main) .main d.delay
      v.settle? d commands
    else v.set? d "out" (.bool false) [.cancel .main]

def DelayOff.react? (d : DelayOff) (t : Timing) (v : View) : Option (Reaction DelayOff) :=
  match v.trigger with
  | .timer .main => if v.level 0 then some (.keep d v) else v.set? d "out" (.bool false)
  | _ =>
    if v.level 0 then v.set? d "out" (.bool true) [.cancel .main]
    else do
      let commands ← t.armIf? ((v.output 0).truth && !v.isArmed .main) .main d.hold
      v.settle? d commands

def Pulse.react? (p : Pulse) (t : Timing) (v : View) : Option (Reaction Pulse) :=
  match v.trigger with
  | .timer .main => v.set? p "out" (.bool false)
  | _ =>
    let now := v.level 0
    let next := { p with level := now }
    if p.kind.isEdge p.level now && !v.isArmed .main then do
      let ports ← v.ports.set? "out" (.bool true)
      let command ← t.arm? .main p.duration
      let ports ← ports.settle?
      some (.leave next ports [command])
    else v.settle? next

def Staircase.react? (s : Staircase) (t : Timing) (v : View) : Option (Reaction Staircase) :=
  match v.trigger with
  | .timer .main => v.set? s "out" (.bool false)
  | _ =>
    let now := v.level 0
    let off := v.level 1
    let next := { s with level := now, offLevel := off }
    if isRise s.offLevel off then do
      let ports ← v.ports.set? "out" (.bool false)
      let ports ← ports.settle?
      some (.leave next ports [.cancel .main])
    else if isRise s.level now then do
      let ports ← v.ports.set? "out" (.bool true)
      let command ← t.arm? .main s.duration
      let ports ← ports.settle?
      some (.leave next ports [command])
    else v.settle? next

namespace WeeklySchedule

/-- Whether a weekday is selected, looked up in a table of seven. -/
def selected? (s : WeeklySchedule) (day : Nat) : Option Bool :=
  if day < 7 then some (s.days.contains day) else none

def isActive? (s : WeeklySchedule) (now : Moment) (holiday : Bool) : Option Bool :=
  if holiday && s.holidays == .off then some false
  else
    let today := if holiday && s.holidays == .sunday then 0 else now.weekday
    let time := now.time
    if s.opens = s.closes then s.selected? today
    else if s.opens.before s.closes then do
      let selected ← s.selected? today
      some (selected && !time.before s.opens && time.before s.closes)
    else do
      let before ← now.dayBefore?
      let late ← s.selected? today
      let early ← s.selected? before.weekday
      some ((late && !time.before s.opens) || (early && time.before s.closes))

def react? (s : WeeklySchedule) (t : Timing) (v : View) : Option (Reaction WeeklySchedule) := do
  let active ← s.isActive? v.reading.localNow (v.level 0)
  let command ← t.tick? v.reading.localNow
  v.set? s "out" (.bool active) [command]

end WeeklySchedule

namespace ImpulseCounter

def step? (c : ImpulseCounter) (now reset : Bool) : Option ImpulseCounter :=
  (if isRise c.resetLevel reset then some 0
    else if isRise c.level now then succ? c.count
    else some c.count).map fun count =>
      { c with level := now, resetLevel := reset, count := count }

def react? (c : ImpulseCounter) (v : View) : Option (Reaction ImpulseCounter) := do
  let next ← c.step? (v.level 0) (v.level 1)
  let count := Float.ofNat next.count
  let ports ← v.ports.set? "count" (.num count)
  let rounded ← roundTo? (count * next.factor) next.decimals
  let ports ← ports.set? "value" (.num rounded)
  some (.leave next ports)

end ImpulseCounter

def HourMeter.react? (m : HourMeter) (t : Timing) (v : View) : Option (Reaction HourMeter) := do
  let run := v.level 0
  let (next, hours) := m.step run (v.level 1) v.reading.absoluteNow
  let command ← (if run then t.tick? v.reading.localNow else some (.cancel .tick))
  let rounded ← roundTo? hours m.decimals
  v.set? next "hours" (.num rounded) [command]

namespace OutputBridge

/-- How many milliseconds the next write has to wait, if it has to. -/
def checkedDelay (b : OutputBridge) (now : Moment) : Option (Option Nat) :=
  match b.lastWrite with
  | some (_, time) =>
    let elapsed := now.millisSince time
    if elapsed < b.interval then (sub? b.interval elapsed).map some else some none
  | none => some none

def onInputs? (b : OutputBridge) (t : Timing) (v : View) : Option (Reaction OutputBridge) :=
  let value := v.input 0
  let now := v.reading.absoluteNow
  if value.isNull then some (.keep b v)
  else if b.repeats value then
    some (.keep { b with waiting := none } v
      (if b.waiting.isSome then [.cancel .throttle] else []))
  else
    (b.checkedDelay now).bind fun
      | some delay =>
        (t.arm? .throttle delay).map fun command =>
          .keep { b with waiting := some value } v [command]
      | none =>
        some (.keep (b.written value now) v [.cancel .throttle, .write b.signal value b.ack])

def react? (b : OutputBridge) (t : Timing) (v : View) : Option (Reaction OutputBridge) :=
  match v.trigger with
  | .timer .throttle => some (b.react v)
  | _ => b.onInputs? t v

end OutputBridge

namespace SceneTrigger

/-- With a payload to be reset, the timer of the reset write is armed right away. -/
def onInputs? (s : SceneTrigger) (t : Timing) (v : View) : Option (Reaction SceneTrigger) :=
  let now := v.level 0
  let next := { s with level := now }
  let command := Command.trigger s.scene s.fallback s.payload s.ack s.pulse
  if s.kind.isEdge s.level now then
    if s.pulse = 0 then some (.keep next v [command])
    else (t.due? s.pulse).map fun _ => .keep next v [command]
  else some (.keep next v)

def react? (s : SceneTrigger) (t : Timing) (v : View) : Option (Reaction SceneTrigger) :=
  match v.trigger with
  | .timer (.pulse _) => some (s.react v)
  | _ => s.onInputs? t v

end SceneTrigger

/-- The checked evaluation of a node. -/
def Behavior.react? (b : Behavior) (t : Timing) (v : View) :
    Option (Except EvalError (Reaction Behavior)) :=
  match b with
  | .const value => (v.set? b "out" value).map .ok
  | .invert => (v.set? b "out" (SignalGraph.invert (v.input 0))).map .ok
  | .gate g => (v.set? b "out" (g.output (v.input 0) (v.input 1))).map .ok
  | .comparison c => (v.set? b "out" (c.output (v.input 0) (v.input 1))).map .ok
  | .operation o =>
    match o.output (v.input 0) (v.input 1) with
    | .ok value => (v.set? b "out" value).map .ok
    | .error e => some (.error e)
  | .clamp c => do
    let y ← limit? ((v.input 0).numberOr c.low) c.low c.high
    (v.set? b "out" (.num y)).map .ok
  | .scale s =>
    match (v.input 0).number? with
    | some x => do
      let y ← s.applied? x
      (v.set? b "out" (.num y)).map .ok
    | none => some (.ok (.keep b v))
  | .edge e => (e.react? t v).map fun r => .ok (r.map .edge)
  | .toggle l =>
    let next := l.step (v.level 0) (v.level 1)
    (v.set? (.toggle next) "out" (.bool next.state)).map .ok
  | .setReset l =>
    let next := l.step (v.level 0) (v.level 1)
    (v.set? (.setReset next) "q" (.bool next.state)).map .ok
  | .delayOn d => (d.react? t v).map fun r => .ok (r.map .delayOn)
  | .delayOff d => (d.react? t v).map fun r => .ok (r.map .delayOff)
  | .pulse p => (p.react? t v).map fun r => .ok (r.map .pulse)
  | .staircase s => (s.react? t v).map fun r => .ok (r.map .staircase)
  | .schedule s => (s.react? t v).map fun r => .ok (r.map .schedule)
  | .impulseCounter c => (c.react? v).map fun r => .ok (r.map .impulseCounter)
  | .counter c =>
    let next := c.step (v.level 0) (v.level 1) (v.level 2)
    (v.set? (.counter next) "count" (.num next.count)).map .ok
  | .hourMeter m => (m.react? t v).map fun r => .ok (r.map .hourMeter)
  | .inputBridge _ => some (.ok (.keep b v))
  | .outputBridge o => (o.react? t v).map fun r => .ok (r.map .outputBridge)
  | .sceneTrigger s => (s.react? t v).map fun r => .ok (r.map .sceneTrigger)

end SignalGraph
