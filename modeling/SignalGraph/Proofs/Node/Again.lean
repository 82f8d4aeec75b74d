import SignalGraph.Proofs.Decimal.Zero
import SignalGraph.Proofs.Node.Edges
import SignalGraph.Proofs.Node.Hours
import SignalGraph.Proofs.Node.Throttle
import SignalGraph.Proofs.Value.Same

/-!
# Evaluating a node once more

A node that has just been evaluated on its inputs is evaluated on the same inputs again, at the same
time. What it sees is what the first evaluation has left (`View.again`), and its answer repeats the
first one (`Behavior.react_again`): the private state and the outputs stay, nothing is written, and
a timer is armed or cancelled only if the first answer did just that.

Every kind of node owes this to another detail. An edge is gone once the level has been noted, a
delay and a pulse see that their timer waits, a counter that has been bounded stays where it is, and
an output bridge finds its value written or waiting.
-/

namespace SignalGraph

/-! ### Repeated answers -/

/-- The commands of an answer to the same question: none, or the one command about a timer that was
given before. -/
inductive Command.Repeat : List Command → List Command → Prop
  | nil (first : List Command) : Repeat first []
  | arm (key : TimerKey) (delay : Nat) : Repeat [.arm key delay] [.arm key delay]
  | cancel (key : TimerKey) : Repeat [.cancel key] [.cancel key]

/-- The second of two reactions repeats the first. -/
structure Reaction.Repeated {σ : Type} (r r' : Reaction σ) : Prop where
  state_eq : r'.state = r.state
  outputs_same : List.Forall₂ (fun a b => Value.same a b = true) r.outputs r'.outputs
  commands : Command.Repeat r.commands r'.commands

/-- What a node sees once a reaction has set its outputs and left it these timers. -/
def View.again (v : View) (outputs : List Value) (timers : ArmedTimers) : View :=
  { v with ports := { v.ports with outputs := outputs }, timers := timers }

namespace View

variable (v : View) (outputs : List Value) (timers : ArmedTimers)

@[simp] theorem trigger_again : (v.again outputs timers).trigger = v.trigger :=
  rfl

@[simp] theorem input_again (i : Nat) : (v.again outputs timers).input i = v.input i :=
  rfl

@[simp] theorem level_again (i : Nat) : (v.again outputs timers).level i = v.level i :=
  rfl

@[simp] theorem output_again (i : Nat) : (v.again outputs timers).output i = outputs.getD i .null :=
  rfl

@[simp] theorem isArmed_again (key : TimerKey) :
    (v.again outputs timers).isArmed key = timers.isArmed key :=
  rfl

end View

/-- The timers that commands have left, as far as a repeated answer depends on them. -/
structure ArmedTimers.Left (timers : ArmedTimers) (commands : List Command) (left : ArmedTimers) :
    Prop where
  eq_of_nil : commands = [] → left = timers
  isArmed_of_arm : ∀ {key delay}, commands = [.arm key delay] → left.isArmed key = true

/-- The timers that obey some commands are left by them. -/
theorem ArmedTimers.ObeysAll.left {time : Nat} {commands : List Command} {timers left : ArmedTimers}
    (h : ObeysAll time commands timers left) : timers.Left commands left := by
  constructor
  · rintro rfl
    cases h
    rfl
  · rintro key delay rfl
    cases h with
    | cons hfirst hrest =>
      cases hrest
      cases hfirst with
      | arm timer hkey => simp [isArmed, hkey]

namespace Reaction.Repeated

variable {σ τ : Type} {state : σ} {outputs : List Value} {value : Value}
  {first again : List Command} {r r' : Reaction σ}

theorem map (f : σ → τ) (h : r.Repeated r') : (r.map f).Repeated (r'.map f) :=
  ⟨congrArg f h.state_eq, h.outputs_same, h.commands⟩

/-- With the same state and the same outputs, only the commands have to be compared. -/
theorem of_commands (h : Command.Repeat first again) :
    Repeated ⟨state, outputs, first⟩ ⟨state, outputs, again⟩ :=
  ⟨rfl, List.forall₂_same.2 fun a _ => a.same_refl, h⟩

end Reaction.Repeated

theorem settled_settled (a : Value) : settled (settled a) = settled a := by
  cases a <;> rfl

theorem truth_settled (a : Value) : (settled a).truth = a.truth := by
  cases a <;> rfl

/-- A timer that is armed unless it waits is not armed again. -/
theorem ArmedTimers.Left.rearm_eq_nil {timers left : ArmedTimers} {wanted : Bool} {key : TimerKey}
    {delay : Nat}
    (h : timers.Left (if wanted && !timers.isArmed key then [.arm key delay] else []) left) :
    (if wanted && !left.isArmed key then [Command.arm key delay] else []) = [] := by
  cases hfirst : wanted && !timers.isArmed key with
  | true =>
    rw [hfirst] at h
    rw [h.isArmed_of_arm rfl, Bool.not_true, Bool.and_false, if_neg Bool.false_ne_true]
  | false =>
    rw [hfirst] at h
    rw [h.eq_of_nil rfl, hfirst, if_neg Bool.false_ne_true]

/-! ### Steps that are repeated -/

/-- A toggle that sees the same levels twice has no edge the second time. -/
theorem Toggle.step_step (t : Toggle) (now reset : Bool) :
    (t.step now reset).step now reset = t.step now reset := by
  unfold step
  dsimp only
  rw [EdgeKind.not_isEdge_self]
  cases reset <;> rfl

/-- The second step of a latch sees a state that already is what its inputs ask for. -/
theorem SetReset.step_step (l : SetReset) (set reset : Bool) :
    (l.step set reset).step set reset = l.step set reset := by
  cases set <;> cases reset <;> rfl

/-- A counter of impulses counts an edge once. -/
theorem ImpulseCounter.step_step (c : ImpulseCounter) (now reset : Bool) :
    (c.step now reset).step now reset = c.step now reset := by
  unfold step
  dsimp only
  rw [not_isRise_self, not_isRise_self]
  rfl

/-- A counter that goes up and down counts each edge once. -/
theorem Counter.step_step (c : Counter) (up down reset : Bool) :
    (c.step up down reset).step up down reset = c.step up down reset := by
  unfold step
  dsimp only
  rw [not_isRise_self, not_isRise_self, not_isRise_self]
  simp only [moved, Bool.false_eq_true, ↓reduceIte, bounded_bounded]

namespace HourMeter

variable (m : HourMeter) (run reset : Bool) (now : Moment)

/-- Measuring again at the same time gives the same hours. -/
theorem alike_measured_measured : Decimal.Alike
    ((m.measured run now).1.measured run now).2 (m.measured run now).2 := by
  cases run <;> cases hsince : m.runningSince <;> simp only [measured, hsince]
  case true.none =>
    rw [hoursBetween_self]
    exact Decimal.alike_add_zero m.total
  all_goals exact .refl _

/-- An hour meter adds no time at the same instant. -/
theorem alike_step_step : Decimal.Alike
    ((m.step run reset now).1.step run reset now).2 (m.step run reset now).2 := by
  rw [step_eq, prepared_step]
  exact alike_measured_measured _ run now

end HourMeter

/-! ### Nodes of one kind -/

section Kinds

variable {v : View} {left : ArmedTimers} (hv : v.trigger = .inputs)

/-- A node that now does no more than settle its output repeats an output that is settled. -/
theorem repeated_settled {σ : Type} {react : σ → View → Reaction σ} {state : σ} {a : Value}
    {first : List Command} (ha : settled a = a) (hagain : ∀ outputs,
      react state (v.again outputs left) = .out state (settled (outputs.getD 0 .null))) :
    (Reaction.out state a first).Repeated (react (Reaction.out state a first).state
      (v.again (Reaction.out state a first).outputs left)) := by
  dsimp only [Reaction.out] at hagain ⊢
  rw [hagain, List.getD_cons_zero, ha]
  exact .of_commands (.nil first)

/-- A node that cancels its timer does so again. -/
theorem repeated_cancel {σ : Type} {react : σ → View → Reaction σ} {state : σ} {a : Value}
    {key : TimerKey} {r : Reaction σ} (hfirst : r = .out state a [.cancel key])
    (hagain : ∀ outputs, react state (v.again outputs left) = .out state a [.cancel key]) :
    r.Repeated (react r.state (v.again r.outputs left)) := by
  subst hfirst
  dsimp only [Reaction.out] at hagain ⊢
  rw [hagain]
  exact .of_commands (.cancel key)

/-- A node that settles its output and wants a timer, depending on what it shows, does not arm it
once more. -/
theorem repeated_arm {σ : Type} (wanted : Bool → Bool) {react : σ → View → Reaction σ} {state : σ}
    {key : TimerKey} {delay : Nat} {r : Reaction σ}
    (hfirst : r = .out state (settled (v.output 0))
      (if wanted (v.output 0).truth && !v.timers.isArmed key then [.arm key delay] else []))
    (hagain : ∀ outputs, react state (v.again outputs left) =
      .out state (settled (outputs.getD 0 .null))
        (if wanted (outputs.getD 0 .null).truth && !left.isArmed key then [.arm key delay] else []))
    (hleft : v.timers.Left r.commands left) :
    r.Repeated (react r.state (v.again r.outputs left)) := by
  subst hfirst
  dsimp only [Reaction.out] at hleft hagain ⊢
  rw [hagain, List.getD_cons_zero, settled_settled, truth_settled, hleft.rearm_eq_nil]
  exact .of_commands (.nil _)

include hv

/-- An edge detector sees no second edge; a pulse that it has started is under way. -/
theorem EdgeDetector.react_again (e : EdgeDetector) :
    (e.react v).Repeated ((e.react v).state.react (v.again (e.react v).outputs left)) := by
  have hfirst : e.react v = e.onInputs v := by
    rw [react, hv]
  -- the level has been noted, so there is no edge any more
  have hagain (outputs : List Value) :
      ({ e with level := v.level 0 } : EdgeDetector).react (v.again outputs left) =
        .out { e with level := v.level 0 } (settled (outputs.getD 0 .null)) := by
    simp [react, hv, onInputs, EdgeKind.not_isEdge_self]
  rw [hfirst, onInputs]
  split
  · exact repeated_settled rfl hagain
  · exact repeated_settled (settled_settled _) hagain

/-- The trigger of a pulse has been seen, so it is not started again. -/
theorem Pulse.react_again (p : Pulse) :
    (p.react v).Repeated ((p.react v).state.react (v.again (p.react v).outputs left)) := by
  have hagain (outputs : List Value) :
      ({ p with level := v.level 0 } : Pulse).react (v.again outputs left) =
        .out { p with level := v.level 0 } (settled (outputs.getD 0 .null)) := by
    simp [react, hv, EdgeKind.not_isEdge_self]
  rw [react, hv]
  dsimp only
  split
  · exact repeated_settled rfl hagain
  · exact repeated_settled (settled_settled _) hagain

/-- A staircase light is not switched twice by one edge. -/
theorem Staircase.react_again (s : Staircase) :
    (s.react v).Repeated ((s.react v).state.react (v.again (s.react v).outputs left)) := by
  have hagain (outputs : List Value) :
      ({ s with level := v.level 0, offLevel := v.level 1 } : Staircase).react
          (v.again outputs left) =
        .out { s with level := v.level 0, offLevel := v.level 1 }
          (settled (outputs.getD 0 .null)) := by
    simp [react, hv, not_isRise_self]
  rw [react, hv]
  dsimp only
  split
  · exact repeated_settled rfl hagain
  · split
    · exact repeated_settled rfl hagain
    · exact repeated_settled (settled_settled _) hagain

/-- A delay under way is not started again, and one that is over stays over. -/
theorem DelayOn.react_again (d : DelayOn) (hleft : v.timers.Left (d.react v).commands left) :
    (d.react v).Repeated ((d.react v).state.react (v.again (d.react v).outputs left)) := by
  cases hlevel : v.level 0 with
  | true =>
    have hfirst : d.react v = .out d (settled (v.output 0))
        (if !(v.output 0).truth && !v.timers.isArmed .main then [.arm .main d.delay] else []) := by
      simp [react, hv, hlevel, View.isArmed]
    have hagain (outputs : List Value) : d.react (v.again outputs left) =
        .out d (settled (outputs.getD 0 .null)) (if !(outputs.getD 0 .null).truth &&
          !left.isArmed .main then [.arm .main d.delay] else []) := by
      simp [react, hv, hlevel]
    exact repeated_arm (!·) hfirst hagain hleft
  | false =>
    have hfirst : d.react v = .out d (.bool false) [.cancel .main] := by
      simp [react, hv, hlevel]
    have hagain (outputs : List Value) :
        d.react (v.again outputs left) = .out d (.bool false) [.cancel .main] := by
      simp [react, hv, hlevel]
    exact repeated_cancel hfirst hagain

theorem DelayOff.react_again (d : DelayOff) (hleft : v.timers.Left (d.react v).commands left) :
    (d.react v).Repeated ((d.react v).state.react (v.again (d.react v).outputs left)) := by
  cases hlevel : v.level 0 with
  | true =>
    have hfirst : d.react v = .out d (.bool true) [.cancel .main] := by
      simp [react, hv, hlevel]
    have hagain (outputs : List Value) :
        d.react (v.again outputs left) = .out d (.bool true) [.cancel .main] := by
      simp [react, hv, hlevel]
    exact repeated_cancel hfirst hagain
  | false =>
    have hfirst : d.react v = .out d (settled (v.output 0))
        (if (v.output 0).truth && !v.timers.isArmed .main then [.arm .main d.hold] else []) := by
      simp [react, hv, hlevel, View.isArmed]
    have hagain (outputs : List Value) : d.react (v.again outputs left) =
        .out d (settled (outputs.getD 0 .null)) (if (outputs.getD 0 .null).truth &&
          !left.isArmed .main then [.arm .main d.hold] else []) := by
      simp [react, hv, hlevel]
    exact repeated_arm id hfirst hagain hleft

/-- A bridge asked twice has already written the value or waits with it. -/
theorem OutputBridge.react_again (b : OutputBridge) :
    (b.react v).Repeated ((b.react v).state.react (v.again (b.react v).outputs left)) := by
  have hfirst : b.react v = b.onInputs v := by
    rw [react, hv]
  have hagain (b : OutputBridge) (outputs : List Value) :
      b.react (v.again outputs left) = b.onInputs (v.again outputs left) := by
    rw [react, View.trigger_again, hv]
  rw [hfirst]
  cases hnull : (v.input 0).isNull with
  | true =>
    rw [onInputs_of_isNull hnull]
    dsimp only [Reaction.keep]
    rw [hagain, onInputs_of_isNull (v := v.again _ left) hnull]
    exact .of_commands (.nil _)
  | false =>
    cases hrepeats : b.repeats (v.input 0) with
    | true =>
      rw [onInputs_of_repeats hnull hrepeats]
      dsimp only [Reaction.keep]
      rw [hagain, onInputs_of_repeats (b := { b with waiting := none }) (v := v.again _ left) hnull
        hrepeats]
      exact .of_commands (.nil _)
    | false =>
      cases hdelay : b.delay? v.reading.absoluteNow with
      | some delay =>
        -- the value waits, and goes on waiting for as long
        rw [onInputs_of_delay hnull hrepeats hdelay]
        dsimp only [Reaction.keep]
        rw [hagain, onInputs_of_delay (b := { b with waiting := some (v.input 0) })
          (v := v.again _ left) hnull hrepeats hdelay]
        exact .of_commands (.arm _ _)
      | none =>
        -- the value has been written, so the same value would repeat the last write
        have hwritten : (b.written (v.input 0) v.reading.absoluteNow).repeats (v.input 0) = true :=
          (v.input 0).same_refl
        rw [onInputs_of_no_delay hnull hrepeats hdelay]
        dsimp only [Reaction.keep]
        rw [hagain, onInputs_of_repeats (v := v.again _ left) hnull hwritten]
        exact .of_commands (.nil _)

/-- One edge triggers a scene once. -/
theorem SceneTrigger.react_again (s : SceneTrigger) :
    (s.react v).Repeated ((s.react v).state.react (v.again (s.react v).outputs left)) := by
  have hfirst : s.react v = s.onInputs v := by
    rw [react, hv]
  have hagain (outputs : List Value) :
      ({ s with level := v.level 0 } : SceneTrigger).react (v.again outputs left) =
        .keep { s with level := v.level 0 } (v.again outputs left) := by
    simp [react, hv, onInputs, EdgeKind.not_isEdge_self]
  rw [hfirst, onInputs]
  split
  all_goals
    dsimp only [Reaction.keep]
    rw [hagain]
    exact .of_commands (.nil _)

omit hv in
/-- A meter shows the same hours again and renews the tick that it has asked for. -/
theorem HourMeter.react_again (m : HourMeter) :
    (m.react v).Repeated ((m.react v).state.react (v.again (m.react v).outputs left)) := by
  have hstate := @step_step m (v.level 0) v.reading.absoluteNow v.reading.absoluteNow (v.level 1)
  have hhours := m.alike_step_step (v.level 0) (v.level 1) v.reading.absoluteNow
  have hdecimals := @decimals_step m (v.level 0) v.reading.absoluteNow (v.level 1)
  have hcommands (run : Bool) (delay : Nat) :
      Command.Repeat [if run then .arm .tick delay else .cancel .tick]
        [if run then .arm .tick delay else .cancel .tick] := by
    cases run with
    | true => exact .arm _ _
    | false => exact .cancel _
  refine ⟨hstate, .cons (Value.same_symm ?_) .nil, hcommands (v.level 0) v.reading.untilTick⟩
  refine (Value.same_num_iff _ _).2 ?_
  show Decimal.Alike (Decimal.roundTo _ (m.step _ _ _).1.decimals) (Decimal.roundTo _ m.decimals)
  rw [hdecimals]
  exact hhours.roundTo m.decimals

end Kinds

/-! ### Nodes of every kind -/

/-- A node that is evaluated once more on the same inputs, at the same time, repeats its answer. -/
theorem Behavior.react_again {b : Behavior} {v : View} {r : Reaction Behavior}
    {left : ArmedTimers} (hv : v.trigger = .inputs) (hreact : b.react v = .ok r)
    (hleft : v.timers.Left r.commands left) :
    ∃ r', r.state.react (v.again r.outputs left) = .ok r' ∧ r.Repeated r' := by
  cases b with
  | const | invert | gate | comparison | clamp | inputBridge =>
    cases hreact
    exact ⟨_, rfl, .of_commands (.nil _)⟩
  | operation o =>
    obtain ⟨value, houtput, rfl⟩ := exists_of_map_eq_ok hreact
    exact ⟨.out (.operation o) value, hreact, .of_commands (.nil _)⟩
  -- without a number at its input a scale keeps what it shows, and does so again
  | scale s =>
    dsimp only [react] at hreact
    cases houtput : s.output? (v.input 0) with
    | some value =>
      rw [houtput] at hreact
      cases hreact
      refine ⟨.out (.scale s) value, ?_, .of_commands (.nil _)⟩
      dsimp only [react, Reaction.out]
      rw [View.input_again, houtput]
    | none =>
      rw [houtput] at hreact
      cases hreact
      refine ⟨.keep (.scale s) v, ?_, .of_commands (.nil _)⟩
      dsimp only [react, Reaction.keep]
      rw [View.input_again, houtput]
      rfl
  | edge e =>
    cases hreact
    exact ⟨_, rfl, (e.react_again hv).map Behavior.edge⟩
  | toggle t =>
    cases hreact
    refine ⟨_, rfl, ?_⟩
    dsimp only [Reaction.map, Toggle.react, Reaction.out]
    rw [View.level_again, View.level_again, t.step_step]
    exact .of_commands (.nil _)
  | setReset l =>
    cases hreact
    refine ⟨_, rfl, ?_⟩
    dsimp only [Reaction.map, SetReset.react, Reaction.out]
    rw [View.level_again, View.level_again, l.step_step]
    exact .of_commands (.nil _)
  | delayOn d =>
    cases hreact
    exact ⟨_, rfl, (d.react_again hv hleft).map Behavior.delayOn⟩
  | delayOff d =>
    cases hreact
    exact ⟨_, rfl, (d.react_again hv hleft).map Behavior.delayOff⟩
  | pulse p =>
    cases hreact
    exact ⟨_, rfl, (p.react_again hv).map Behavior.pulse⟩
  | staircase s =>
    cases hreact
    exact ⟨_, rfl, (s.react_again hv).map Behavior.staircase⟩
  -- a schedule reads nothing but the time and asks for the same tick again
  | schedule s =>
    cases hreact
    exact ⟨_, rfl, .of_commands (.arm _ _)⟩
  | impulseCounter c =>
    cases hreact
    refine ⟨_, rfl, ?_⟩
    dsimp only [Reaction.map, ImpulseCounter.react]
    rw [View.level_again, View.level_again, c.step_step]
    exact .of_commands (.nil _)
  | counter c =>
    cases hreact
    refine ⟨_, rfl, ?_⟩
    dsimp only [Reaction.map, Counter.react, Reaction.out]
    rw [View.level_again, View.level_again, View.level_again, c.step_step]
    exact .of_commands (.nil _)
  | hourMeter m =>
    cases hreact
    exact ⟨_, rfl, m.react_again.map Behavior.hourMeter⟩
  | outputBridge o =>
    cases hreact
    exact ⟨_, rfl, (o.react_again hv).map Behavior.outputBridge⟩
  | sceneTrigger s =>
    cases hreact
    exact ⟨_, rfl, (s.react_again hv).map Behavior.sceneTrigger⟩

end SignalGraph
