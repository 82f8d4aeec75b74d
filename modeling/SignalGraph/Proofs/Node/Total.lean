import SignalGraph.Proofs.Calendar.Date
import SignalGraph.Proofs.Node.Checked

/-!
# Evaluation never fails a check

Accepted parameters have the bounds, decimals and durations that the checks ask for
(`Behavior.safe_of_ofParams`), and an evaluation leaves a node with just its outputs. So, as long as
counts and clock readings stay in their range, no evaluation fails a check
(`NodeInstance.checks_never_fail`).
-/

namespace SignalGraph

open Decimal

/-! ### Ports -/

/-- Ports with just these outputs. -/
structure Ports.Offers (p : Ports) (names : List String) : Prop where
  outputs_eq : p.type.outputs = names
  length_eq : p.outputs.length = names.length

namespace Ports

variable {p : Ports} {names : List String} {port : String}

/-- Setting an output leaves the names of the ports as they are. -/
theorem Offers.setOutputAt (h : p.Offers names) (i : Nat) (value : Value) :
    (p.setOutputAt i value).Offers names :=
  ⟨h.outputs_eq, (List.length_set ..).trans h.length_eq⟩

/-- An output with a known name is set at its number. -/
theorem Offers.set?_eq (h : p.Offers names) {i : Nat} (hindex : names.findIdx? (· == port) = some i)
    (value : Value) : p.set? port value = some (p.setOutputAt i value) := by
  have hlength : i < p.outputs.length := by
    rw [h.length_eq]
    exact (List.findIdx?_eq_some_iff_getElem.1 hindex).1
  rw [set?, NodeType.outputIndex?, h.outputs_eq, hindex]
  exact if_pos hlength

/-- A node with one output port shows one value. -/
theorem Offers.outputs_sole (h : p.Offers [port]) : p.outputs = [p.outputAt 0] := by
  obtain ⟨value, hvalue⟩ := List.length_eq_one_iff.1 h.length_eq
  rw [outputAt, hvalue]
  rfl

/-- The only port of a node can be set by its name. -/
theorem Offers.set?_sole (h : p.Offers [port]) (value : Value) :
    p.set? port value = some { p with outputs := [value] } := by
  rw [h.set?_eq (i := 0) (by simp), Ports.setOutputAt, h.outputs_sole]
  rfl

/-- The port `out` can be settled where it is the only one. -/
theorem Offers.settle?_sole (h : p.Offers ["out"]) :
    p.settle? = some { p with outputs := [settled (p.outputAt 0)] } := by
  unfold settle? settled
  split
  · exact h.set?_sole _
  · rw [← h.outputs_sole]

end Ports

namespace View

variable {σ : Type} {v : View} {name : String} {state : σ} {commands : List Command}

/-- A value can be given out at the only port of a node. -/
theorem set?_eq (h : v.ports.Offers [name]) (value : Value) :
    v.set? state name value commands = some (.out state value commands) := by
  rw [set?, h.set?_sole]
  rfl

/-- The value at the port `out` can be kept. -/
theorem settle?_eq (h : v.ports.Offers ["out"]) :
    v.settle? state commands = some (.out state (settled (v.output 0)) commands) := by
  rw [settle?, h.settle?_sole]
  rfl

/-- The only output keeps its value. -/
theorem keep_eq_out (h : v.ports.Offers [name]) :
    Reaction.keep state v commands = .out state (v.output 0) commands := by
  rw [Reaction.keep, h.outputs_sole]
  rfl

end View

/-! ### Times -/

/-- A local time and the timing of an evaluation within the ranges of dates and durations. -/
structure Timing.InRange (t : Timing) (now : Moment) : Prop where
  /-- The day before is a date. -/
  day : firstDay < now.day
  grace : t.grace < 2 ^ 64
  /-- The due time of a timer can be told, whatever its delay. -/
  elapsed : t.elapsed + 2 ^ 65 ≤ durationLimit

namespace Timing

variable {t : Timing} {now : Moment}

/-- The time at which a timer falls due is representable. -/
theorem InRange.due?_eq (h : t.InRange now) {delay : Nat} (hdelay : delay < 2 ^ 65) :
    t.due? delay = some (t.elapsed + delay) := by
  have hrange := h.elapsed
  rw [due?, addDurations?, if_pos (by omega)]

/-- A timer of admissible length can be armed. -/
theorem InRange.arm?_eq (h : t.InRange now) {delay : Nat} (hdelay : delay < 2 ^ 65)
    (key : TimerKey) : t.arm? key delay = some (.arm key delay) := by
  rw [arm?, h.due?_eq hdelay, Option.map_some]

theorem InRange.armIf?_eq (h : t.InRange now) {delay : Nat} (hdelay : delay < 2 ^ 65)
    (needed : Bool) (key : TimerKey) :
    t.armIf? needed key delay = some (if needed then [.arm key delay] else []) := by
  unfold armIf?
  split
  · rw [h.arm?_eq hdelay, Option.map_some]
  · rfl

/-- The seconds and milliseconds of a minute never exceed it, not even in a leap second. -/
theorem untilNextMinute?_eq (m : Moment) : m.untilNextMinute? = some m.untilNextMinute := by
  rw [Moment.untilNextMinute?, sub?, if_pos (by omega), Moment.untilNextMinute]

/-- The next tick can be armed: a minute is short. -/
theorem InRange.tick?_eq (h : t.InRange now) :
    t.tick? now = some (.arm .tick (now.untilNextMinute + t.grace)) := by
  have hgrace := h.grace
  have hminute : now.untilNextMinute ≤ 60000 := Nat.sub_le _ _
  have hdelay : addDurations? now.untilNextMinute t.grace =
      some (now.untilNextMinute + t.grace) :=
    if_pos (by unfold durationLimit; omega)
  rw [tick?, untilNextMinute?_eq, Option.bind_eq_bind, Option.bind_some, hdelay]
  exact h.arm?_eq (by omega) .tick

end Timing

/-- Every day but the first one has a day before it. -/
theorem Moment.dayBefore?_eq {m : Moment} (h : firstDay < m.day) :
    m.dayBefore? = some (m.addMillis (-(millisPerDay : Int))) := by
  have hday := m.le_day_addMillis
  rw [dayBefore?]
  exact if_pos (by omega)

/-! ### Kinds of nodes -/

section Kinds

variable {t : Timing} {v : View}

/-- The bounds of an accepted scale are in order, so clamping is defined. -/
theorem Scale.clamped?_eq {s : Scale} (hs : s.Sound) (y : Float) :
    s.clamped? y = some (s.clamped y) := by
  unfold clamped? clamped
  split
  · rfl
  · split
    · next hle => exact if_pos hle
    · next hle => exact if_pos (le_of_not_lt hs.outHigh hs.outLow (mt le_of_lt hle))

/-- No step of an accepted scale is undefined. -/
theorem Scale.applied?_eq {s : Scale} (hs : s.Sound) (x : Float) :
    s.applied? x = some (s.apply x) := by
  rw [applied?, clamped?_eq hs, Option.bind_eq_bind, Option.bind_some, apply]
  cases hd : s.decimals with
  | some d => exact if_pos (hs.decimals d hd)
  | none => rfl

theorem EdgeDetector.react?_eq {e : EdgeDetector} (ht : t.InRange v.reading.localNow)
    (hpulse : e.pulse < 2 ^ 64)
    (hv : v.ports.Offers ["out"]) : e.react? t v = some (e.react v) := by
  have hinputs : e.onInputs? t v = some (e.onInputs v) := by
    unfold onInputs? onInputs
    dsimp only
    split
    · rw [ht.arm?_eq (by omega), Option.bind_eq_bind, Option.bind_some, View.set?_eq hv]
    · exact View.settle?_eq hv
  unfold react? react
  generalize v.trigger = trigger
  rcases trigger with _ | (_ | _ | _ | _ | _)
  case timer.reset => exact View.set?_eq hv _
  -- whatever else the trigger is, the node is evaluated on its inputs
  all_goals exact hinputs

theorem DelayOn.react?_eq {d : DelayOn} (ht : t.InRange v.reading.localNow)
    (hdelay : d.delay < 2 ^ 64)
    (hv : v.ports.Offers ["out"]) : d.react? t v = some (d.react v) := by
  unfold react? react
  generalize v.trigger = trigger
  rcases trigger with _ | (_ | _ | _ | _ | _)
  case timer.main =>
    dsimp only
    split
    · exact View.set?_eq hv _
    · rw [View.keep_eq_out hv]
  all_goals
    dsimp only
    split
    · rw [ht.armIf?_eq (by omega), Option.bind_eq_bind, Option.bind_some, View.settle?_eq hv]
    · exact View.set?_eq hv _

theorem DelayOff.react?_eq {d : DelayOff} (ht : t.InRange v.reading.localNow)
    (hhold : d.hold < 2 ^ 64) (hv : v.ports.Offers ["out"]) : d.react? t v = some (d.react v) := by
  unfold react? react
  generalize v.trigger = trigger
  rcases trigger with _ | (_ | _ | _ | _ | _)
  case timer.main =>
    dsimp only
    split
    · rw [View.keep_eq_out hv]
    · exact View.set?_eq hv _
  all_goals
    dsimp only
    split
    · exact View.set?_eq hv _
    · rw [ht.armIf?_eq (by omega), Option.bind_eq_bind, Option.bind_some, View.settle?_eq hv]

theorem Pulse.react?_eq {p : Pulse} (ht : t.InRange v.reading.localNow)
    (hduration : p.duration < 2 ^ 64)
    (hv : v.ports.Offers ["out"]) : p.react? t v = some (p.react v) := by
  unfold react? react
  generalize v.trigger = trigger
  rcases trigger with _ | (_ | _ | _ | _ | _)
  case timer.main => exact View.set?_eq hv _
  all_goals
    dsimp only
    split
    · rw [hv.set?_sole, ht.arm?_eq (by omega)]
      rfl
    · exact View.settle?_eq hv

theorem Staircase.react?_eq {s : Staircase} (ht : t.InRange v.reading.localNow)
    (hduration : s.duration < 2 ^ 64)
    (hv : v.ports.Offers ["out"]) : s.react? t v = some (s.react v) := by
  unfold react? react
  generalize v.trigger = trigger
  rcases trigger with _ | (_ | _ | _ | _ | _)
  case timer.main => exact View.set?_eq hv _
  all_goals
    dsimp only
    split
    · rw [hv.set?_sole]
      rfl
    · split
      · rw [hv.set?_sole, ht.arm?_eq (by omega)]
        rfl
      · exact View.settle?_eq hv

namespace WeeklySchedule

/-- Weekdays are among the days of a schedule. -/
theorem selected?_weekday (s : WeeklySchedule) (m : Moment) :
    s.selected? m.weekday = some (s.days.contains m.weekday) := by
  refine if_pos ?_
  unfold Moment.weekday weekdayOfDay
  omega

/-- From the second day of the calendar on, the window of the day before can be asked for. -/
theorem isActive?_eq (s : WeeklySchedule) {now : Moment} (hday : firstDay < now.day)
    (holiday : Bool) : s.isActive? now holiday = some (s.isActive now holiday) := by
  unfold isActive? isActive
  split
  · rfl
  · dsimp only
    -- a holiday may stand in for a Sunday, which is a weekday as well
    have htoday : s.selected? (if holiday && s.holidays == .sunday then 0 else now.weekday) =
        some (s.days.contains (if holiday && s.holidays == .sunday then 0 else now.weekday)) := by
      split
      · rfl
      · exact s.selected?_weekday now
    rw [htoday, Moment.dayBefore?_eq hday]
    simp only [Option.bind_eq_bind, Option.bind_some, selected?_weekday]
    split
    · rfl
    · split <;> rfl

theorem react?_eq (s : WeeklySchedule) (ht : t.InRange v.reading.localNow)
    (htick : v.reading.untilTick = v.reading.localNow.untilNextMinute + t.grace)
    (hv : v.ports.Offers ["out"]) : s.react? t v = some (s.react v) := by
  rw [react?, s.isActive?_eq ht.day, ht.tick?_eq, ← htick]
  exact View.set?_eq hv _

end WeeklySchedule

theorem ImpulseCounter.react?_eq {c : ImpulseCounter} (hdecimals : c.decimals ≤ 10)
    (hcount : (c.react v).state.count < 2 ^ 64) (hv : v.ports.Offers ["count", "value"]) :
    c.react? v = some (c.react v) := by
  have hstep : c.step? (v.level 0) (v.level 1) = some (c.step (v.level 0) (v.level 1)) := by
    change (c.step (v.level 0) (v.level 1)).count < 2 ^ 64 at hcount
    unfold step at *
    unfold step?
    split_ifs at * with hreset hin
    · rfl
    · rw [succ?, if_pos hcount, Option.map_some]
    · rfl
  -- the two outputs are set one after the other, and nothing of the old ones is left
  obtain ⟨first, second, houtputs⟩ := List.length_eq_two.1 hv.length_eq
  generalize hnext : c.step (v.level 0) (v.level 1) = next at hstep
  have hten : next.decimals ≤ 10 := hnext ▸ hdecimals
  have hset : ∀ value, v.ports.set? "count" value = some (v.ports.setOutputAt 0 value) :=
    hv.set?_eq rfl
  have hsetAgain : ∀ value value', (v.ports.setOutputAt 0 value).set? "value" value' =
      some ((v.ports.setOutputAt 0 value).setOutputAt 1 value') := fun value =>
    (hv.setOutputAt 0 value).set?_eq rfl
  rw [react?, hstep, react, hnext]
  simp only [Option.bind_eq_bind, Option.bind_some, hset, hsetAgain, roundTo?, if_pos hten]
  simp only [Reaction.leave, Ports.setOutputAt, houtputs, List.set_cons_zero, List.set_cons_succ,
    outputs]

theorem HourMeter.react?_eq {m : HourMeter} (ht : t.InRange v.reading.localNow)
    (htick : v.reading.untilTick = v.reading.localNow.untilNextMinute + t.grace)
    (hdecimals : m.decimals ≤ 10)
    (hv : v.ports.Offers ["hours"]) : m.react? t v = some (m.react v) := by
  have hcommand : (if v.level 0 then t.tick? v.reading.localNow else some (.cancel .tick)) =
      some (if v.level 0 then .arm .tick v.reading.untilTick else .cancel .tick) := by
    rw [ht.tick?_eq, ← htick]
    split <;> rfl
  unfold react? react
  dsimp only
  rw [hcommand, roundTo?, if_pos hdecimals]
  exact View.set?_eq hv _

namespace OutputBridge

/-- The time to the next write is never negative. -/
theorem checkedDelay_eq (b : OutputBridge) (now : Moment) :
    b.checkedDelay now = some (b.delay? now) := by
  unfold checkedDelay delay?
  cases b.lastWrite with
  | none => rfl
  | some last =>
    dsimp only
    split
    · next hlt => rw [sub?, if_pos hlt.le, Option.map_some]
    · rfl

/-- A write is put off by no more than the interval. -/
theorem delay?_le {b : OutputBridge} {now : Moment} {delay : Nat}
    (h : b.delay? now = some delay) : delay ≤ b.interval := by
  unfold delay? at h
  cases hlast : b.lastWrite with
  | none =>
    rw [hlast] at h
    cases h
  | some last =>
    rw [hlast] at h
    dsimp only at h
    split at h
    · cases h
      omega
    · cases h

theorem onInputs?_eq {b : OutputBridge} (ht : t.InRange v.reading.localNow)
    (hinterval : b.interval < 2 ^ 64) : b.onInputs? t v = some (b.onInputs v) := by
  unfold onInputs? onInputs
  dsimp only
  split
  · rfl
  · split
    · rfl
    · rw [checkedDelay_eq, Option.bind_some]
      cases hdelay : b.delay? v.reading.absoluteNow with
      | none => rfl
      | some delay =>
        have hle := delay?_le hdelay
        dsimp only
        rw [ht.arm?_eq (by omega), Option.map_some]

theorem react?_eq {b : OutputBridge} (ht : t.InRange v.reading.localNow)
    (hinterval : b.interval < 2 ^ 64) : b.react? t v = some (b.react v) := by
  have hinputs := onInputs?_eq ht hinterval
  unfold react?
  split
  · rfl
  · next hother =>
    unfold react
    split
    · next hthrottle => exact (hother hthrottle).elim
    · exact hinputs

end OutputBridge

theorem SceneTrigger.react?_eq {s : SceneTrigger} (ht : t.InRange v.reading.localNow)
    (hpulse : s.pulse < 2 ^ 64) : s.react? t v = some (s.react v) := by
  have hinputs : s.onInputs? t v = some (s.onInputs v) := by
    unfold onInputs? onInputs
    dsimp only
    split
    · split
      · rfl
      · rw [ht.due?_eq (by omega), Option.map_some]
    · rfl
  unfold react?
  split
  · rfl
  · next hother =>
    unfold react
    split
    · next hpulse => exact (hother _ hpulse).elim
    · exact hinputs

end Kinds

/-! ### Every kind of node -/

namespace Behavior

/-- The names of the outputs of a node with this behaviour. -/
def outputNames : Behavior → List String
  | .setReset _ => ["q"]
  | .impulseCounter _ => ["count", "value"]
  | .counter _ => ["count"]
  | .hourMeter _ => ["hours"]
  | .outputBridge _ | .sceneTrigger _ => []
  | _ => ["out"]

/-- Parameters with which no check fails. -/
def Safe : Behavior → Prop
  | .clamp c => c.low ≤ c.high
  | .scale s => s.Sound
  | .edge e => e.pulse < 2 ^ 64
  | .delayOn d => d.delay < 2 ^ 64
  | .delayOff d => d.hold < 2 ^ 64
  | .pulse p => p.duration < 2 ^ 64
  | .staircase s => s.duration < 2 ^ 64
  | .impulseCounter c => c.decimals ≤ 10
  | .hourMeter m => m.decimals ≤ 10
  | .outputBridge b => b.interval < 2 ^ 64
  | .sceneTrigger s => s.pulse < 2 ^ 64
  | _ => True

/-- What an impulse counter has counted. -/
def impulses : Behavior → Nat
  | .impulseCounter c => c.count
  | _ => 0

variable {ty : NodeType} {p : Params} {b : Behavior}

/-- A behaviour gives out values at the ports that its node type offers. -/
theorem outputNames_ofParams (h : ofParams ty p = .ok b) : ty.outputs = b.outputNames := by
  cases builds_of_ofParams h <;> rfl

/-- Which ports these are does not depend on the state. -/
theorem outputNames_parameters (b : Behavior) : b.parameters.outputNames = b.outputNames := by
  cases b <;> rfl

/-- There are as many names as outputs. -/
theorem length_outputNames (b : Behavior) : b.outputNames.length = b.outputCount := by
  cases b <;> rfl

/-- Safety is a matter of the parameters. -/
theorem safe_parameters (b : Behavior) : b.parameters.Safe ↔ b.Safe := by
  cases b <;> rfl

end Behavior

namespace Behavior

/-- Accepted parameters are safe. -/
theorem safe_of_ofParams {ty : NodeType} {p : Params} {b : Behavior} (h : ofParams ty p = .ok b) :
    b.Safe := by
  cases builds_of_ofParams h with
  | clamp hc => exact Clamp.low_le_high hc
  | scale hs => exact Scale.sound_of_ofParams hs
  | edge he | edgeRising he | edgeFalling he | edgeBoth he => exact EdgeDetector.pulse_lt he
  | delayOn hd => exact DelayOn.delay_lt hd
  | delayOff hd | pulseExtend hd => exact DelayOff.hold_lt hd
  | pulse hq => exact Pulse.duration_lt hq
  | staircase hs => exact Staircase.duration_lt hs
  | impulseCounter hc => exact ImpulseCounter.decimals_le hc
  | runtimeHours hm => exact HourMeter.decimals_le hm
  | dpOut ho => exact OutputBridge.interval_lt ho
  | scene hs => exact SceneTrigger.pulse_lt hs
  | _ => exact trivial

/-- With safe parameters and readings in their range no check fails. -/
theorem react?_eq {b : Behavior} {t : Timing} {v : View} (hsafe : b.Safe)
    (hv : v.ports.Offers b.outputNames) (ht : t.InRange v.reading.localNow)
    (htick : v.reading.untilTick = v.reading.localNow.untilNextMinute + t.grace)
    (hcount : ∀ r, b.react v = .ok r → r.state.impulses < 2 ^ 64) :
    b.react? t v = some (b.react v) := by
  cases b with
  | const | invert | gate | comparison | toggle | setReset | counter =>
    rw [react?, View.set?_eq hv]
    rfl
  | operation o =>
    rw [react?, react]
    cases o.output (v.input 0) (v.input 1) with
    | ok value =>
      dsimp only
      rw [View.set?_eq hv]
      rfl
    | error e => rfl
  | clamp c =>
    have hlimit : limit? ((v.input 0).numberOr c.low) c.low c.high = _ := if_pos hsafe
    rw [react?, hlimit, Option.bind_eq_bind, Option.bind_some, View.set?_eq hv]
    rfl
  | scale s =>
    rw [react?, react, Scale.output?]
    cases (v.input 0).number? with
    | none => rfl
    | some x =>
      dsimp only
      rw [Scale.applied?_eq hsafe, Option.bind_eq_bind, Option.bind_some, View.set?_eq hv]
      rfl
  | edge e =>
    rw [react?, EdgeDetector.react?_eq ht hsafe hv]
    rfl
  | delayOn d =>
    rw [react?, DelayOn.react?_eq ht hsafe hv]
    rfl
  | delayOff d =>
    rw [react?, DelayOff.react?_eq ht hsafe hv]
    rfl
  | pulse p =>
    rw [react?, Pulse.react?_eq ht hsafe hv]
    rfl
  | staircase s =>
    rw [react?, Staircase.react?_eq ht hsafe hv]
    rfl
  | schedule s =>
    rw [react?, s.react?_eq ht htick hv]
    rfl
  -- the only check that depends on the history: the count must stay below 2 ^ 64
  | impulseCounter c =>
    rw [react?, ImpulseCounter.react?_eq hsafe (hcount _ rfl) hv]
    rfl
  | hourMeter m =>
    rw [react?, HourMeter.react?_eq ht htick hsafe hv]
    rfl
  | inputBridge => rfl
  | outputBridge o =>
    rw [react?, OutputBridge.react?_eq ht hsafe]
    rfl
  | sceneTrigger s =>
    rw [react?, SceneTrigger.react?_eq ht hsafe]
    rfl

end Behavior

/-! ### Sequences of evaluations -/

/-- Why and when a node is evaluated, and on what. -/
structure Stimulus where
  trigger : Trigger
  inputs : List Value
  /-- The timers of the node that are armed. -/
  timers : ArmedTimers
  localNow : Moment
  absoluteNow : Moment
  timing : Timing

namespace Stimulus

/-- What a node with these ports sees. -/
def view (s : Stimulus) (ports : Ports) : View where
  trigger := s.trigger
  ports := { ports with inputs := s.inputs }
  timers := s.timers
  reading := ⟨s.localNow, s.absoluteNow, s.localNow.untilNextMinute + s.timing.grace⟩

end Stimulus

/-- A node as far as it is evaluated. -/
structure NodeInstance where
  behavior : Behavior
  ports : Ports

namespace NodeInstance

/-- The instance after an answer to what it sees; a failure leaves its outputs. -/
def after (n : NodeInstance) (v : View) : Except EvalError (Reaction Behavior) → NodeInstance
  | .ok r => ⟨r.state, { v.ports with outputs := r.outputs }⟩
  | .error _ => ⟨n.behavior, v.ports⟩

def evaluate (n : NodeInstance) (s : Stimulus) : NodeInstance :=
  n.after (s.view n.ports) (n.behavior.react (s.view n.ports))

def evaluate? (n : NodeInstance) (s : Stimulus) : Option NodeInstance :=
  (n.behavior.react? s.timing (s.view n.ports)).map (n.after (s.view n.ports))

/-- The instance after an evaluation for each stimulus. -/
def evaluateAll (n : NodeInstance) (stimuli : List Stimulus) : NodeInstance :=
  stimuli.foldl evaluate n

/-- The same with checked evaluations, none of which may fail a check. -/
def evaluateAll? (n : NodeInstance) (stimuli : List Stimulus) : Option NodeInstance :=
  stimuli.foldlM evaluate? n

/-- An instance with safe parameters and the outputs of its kind. -/
structure Safe (n : NodeInstance) : Prop where
  behavior : n.behavior.Safe
  offers : n.ports.Offers n.behavior.outputNames

variable {n : NodeInstance} {s : Stimulus}

theorem safe_of_ofParams {ty : NodeType} {p : Params} {b : Behavior}
    (h : Behavior.ofParams ty p = .ok b) : Safe ⟨b, .new ty⟩ where
  behavior := Behavior.safe_of_ofParams h
  offers := by
    refine ⟨Behavior.outputNames_ofParams h, ?_⟩
    rw [← Behavior.outputNames_ofParams h]
    exact List.length_map _

/-- An evaluation leaves a safe node safe. -/
theorem Safe.evaluate (h : n.Safe) (s : Stimulus) : (n.evaluate s).Safe := by
  unfold NodeInstance.evaluate
  cases hreact : n.behavior.react (s.view n.ports) with
  | error e => exact ⟨h.behavior, h.offers.outputs_eq, h.offers.length_eq⟩
  | ok r =>
    -- safety and the names of the outputs depend on the parameters only, and those are kept
    have hkept := Behavior.kept_of_react hreact
    have hnames : r.state.outputNames = n.behavior.outputNames := by
      rw [← Behavior.outputNames_parameters, hkept.parameters_eq, Behavior.outputNames_parameters]
    have hlength := h.offers.length_eq
    rw [Behavior.length_outputNames] at hlength
    refine ⟨?_, h.offers.outputs_eq.trans hnames.symm, ?_⟩
    · show r.state.Safe
      rw [← Behavior.safe_parameters, hkept.parameters_eq, Behavior.safe_parameters]
      exact h.behavior
    · show r.outputs.length = r.state.outputNames.length
      rw [hnames, Behavior.length_outputNames]
      exact hkept.length_eq hlength

/-- No operation of an evaluation of a safe node is undefined. -/
theorem Safe.evaluate?_eq (h : n.Safe) (hs : s.timing.InRange s.localNow)
    (hcount : (n.evaluate s).behavior.impulses < 2 ^ 64) : n.evaluate? s = some (n.evaluate s) := by
  rw [evaluate?, Behavior.react?_eq h.behavior ⟨h.offers.outputs_eq, h.offers.length_eq⟩ hs rfl]
  · rfl
  · intro r hr
    rwa [NodeInstance.evaluate, hr] at hcount

/-- The same for a sequence of evaluations, by induction on it: each one leaves a safe node. -/
theorem Safe.evaluateAll?_eq {stimuli : List Stimulus} (h : n.Safe)
    (hrange : ∀ s ∈ stimuli, s.timing.InRange s.localNow)
    (hcount : ∀ before, before <+: stimuli → (n.evaluateAll before).behavior.impulses < 2 ^ 64) :
    n.evaluateAll? stimuli = some (n.evaluateAll stimuli) := by
  induction stimuli generalizing n with
  | nil => rfl
  | cons s rest ih =>
    obtain ⟨hfirst, hrest⟩ := List.forall_mem_cons.1 hrange
    have hevaluate := h.evaluate?_eq hfirst (hcount [s] ⟨rest, rfl⟩)
    rw [evaluateAll?, List.foldlM_cons, hevaluate, Option.bind_eq_bind, Option.bind_some]
    -- what is evaluated after the first stimulus is evaluated at first as well
    exact ih (h.evaluate s) hrest fun before hbefore =>
      hcount (s :: before) (List.cons_prefix_cons.2 ⟨rfl, hbefore⟩)

/-- A node with accepted parameters never fails a check, whatever its inputs, its timers and the
clocks are. -/
theorem checks_never_fail {ty : NodeType} {p : Params} {b : Behavior}
    (h : Behavior.ofParams ty p = .ok b) {stimuli : List Stimulus}
    (hrange : ∀ s ∈ stimuli, s.timing.InRange s.localNow)
    (hcount : ∀ before, before <+: stimuli →
      (evaluateAll ⟨b, .new ty⟩ before).behavior.impulses < 2 ^ 64) :
    evaluateAll? ⟨b, .new ty⟩ stimuli = some (evaluateAll ⟨b, .new ty⟩ stimuli) :=
  (safe_of_ofParams h).evaluateAll?_eq hrange hcount

/-- A bridge with an interval of a second and a half. -/
def throttledParams : Params where
  node := "lamp"
  table := [("dp", .str "hall.lamp"), ("min_interval_ms", .str " 1500,4 ")]

def throttled : OutputBridge where
  signal := "hall.lamp"
  interval := 1500
  ack := false

/-- A new value of the input when both clocks show a moment. -/
def changeAt (now : Moment) (value : Value) : Stimulus where
  trigger := .inputs
  inputs := [value]
  timers := []
  localNow := now
  absoluteNow := now
  timing := ⟨20, 500⟩

/-- A value is written in a leap second, and the next one comes when the clocks have been set back
by an hour: it waits for the whole interval. -/
theorem checks_never_fail_set_back :
    Behavior.ofParams .dpOut throttledParams = .ok (.outputBridge throttled) ∧
    (evaluateAll? ⟨.outputBridge throttled, .new .dpOut⟩
        [changeAt ⟨17166, ⟨86399, 1500000000⟩⟩ (.bool true),
          changeAt ⟨17166, ⟨82799, 0⟩⟩ (.bool false)]).map behavior =
      some (.outputBridge { throttled with
        lastWrite := some (.bool true, ⟨17166, ⟨86399, 1500000000⟩⟩)
        waiting := some (.bool false) }) := by
  have hparams : Behavior.ofParams .dpOut throttledParams = .ok (.outputBridge throttled) := by rfl
  refine ⟨hparams, ?_⟩
  rw [checks_never_fail hparams]
  · rfl
  · simp only [List.forall_mem_cons]
    exact ⟨⟨by decide, by decide, by decide⟩, ⟨by decide, by decide, by decide⟩,
      List.forall_mem_nil _⟩
  · intro before hbefore
    rw [List.prefix_iff_eq_take.1 hbefore]
    rcases before.length with _ | _ | n
    · exact Nat.two_pow_pos 64
    · exact Nat.two_pow_pos 64
    · rw [List.take_of_length_le (Nat.le_add_left 2 n)]
      exact Nat.two_pow_pos 64

end NodeInstance

end SignalGraph
