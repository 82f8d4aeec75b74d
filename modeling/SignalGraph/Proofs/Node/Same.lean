import SignalGraph.Node.Behavior
import SignalGraph.Proofs.Decimal.Zero
import SignalGraph.Proofs.Value.Same

/-!
# Answers on the same inputs

A node that is evaluated on the same inputs gives the same answer (`Behavior.react_same`): the same
outputs, and the same commands and private state up to a value that an output bridge writes or
keeps. So no node is affected if a value gives way to one that is the same
(`Behavior.unaffected_of_same`).

Most nodes read nothing but the levels of their inputs, and then the answers are equal. Those that
read numbers owe it to their arithmetic, which turns alike numbers into alike ones; a zero that is
divided by is an error with either sign.
-/

namespace SignalGraph

open Decimal

/-! ### Arithmetic -/

namespace Decimal.Alike

variable {x x' y y' : Float}

/-- The lesser of two floats is alike if the floats are. -/
theorem lesser (hx : Alike x x') (hy : Alike y y') :
    Alike (Decimal.lesser x y) (Decimal.lesser x' y') := by
  unfold Decimal.lesser
  simp only [hy.isNaN_eq, hx.lt_iff_lt hy]
  split_ifs
  · exact hx
  · exact hx
  · exact hy

theorem greater (hx : Alike x x') (hy : Alike y y') :
    Alike (Decimal.greater x y) (Decimal.greater x' y') := by
  unfold Decimal.greater
  simp only [hy.isNaN_eq, gt_iff_lt, hy.lt_iff_lt hx]
  split_ifs
  · exact hx
  · exact hx
  · exact hy

end Decimal.Alike

namespace Operation

variable {x x' y y' : Float}

/-- Alike operands have alike results, unless one is divided by a zero. -/
theorem result_alike (o : Operation) (hx : Alike x x') (hy : Alike y y')
    (hdefined : ¬(o = .div ∧ (y == 0.0) = true)) : Alike (o.result x y) (o.result x' y') := by
  cases o with
  | add => exact hx.add hy
  | sub => exact hx.sub hy
  | mul => exact hx.mul hy
  | min => exact hx.lesser hy
  | max => exact hx.greater hy
  | div =>
    rcases hy with rfl | ⟨hzero, -⟩
    · exact hx.div_right y
    · exact (hdefined ⟨rfl, (isZero_iff y).1 hzero⟩).elim

/-- An arithmetic operation on floats that are alike fails in the same way or gives floats that are
alike. -/
theorem apply_alike (o : Operation) (hx : Alike x x') (hy : Alike y y') :
    (∃ e, o.apply x y = .error e ∧ o.apply x' y' = .error e) ∨
      ∃ z z', o.apply x y = .ok z ∧ o.apply x' y' = .ok z' ∧ Alike z z' := by
  unfold apply
  rw [hy.beq_eq_beq (.refl 0.0)]
  by_cases hzero : o = .div ∧ (y' == 0.0) = true
  · left
    rw [if_pos hzero, if_pos hzero]
    exact ⟨_, rfl, rfl⟩
  · have hresult := o.result_alike hx hy (by rwa [hy.beq_eq_beq (.refl 0.0)])
    rw [if_neg hzero, if_neg hzero]
    dsimp only
    rw [hresult.isFinite_eq]
    split
    · exact .inr ⟨_, _, rfl, rfl, hresult⟩
    · exact .inl ⟨_, rfl, rfl⟩

end Operation

theorem Scale.apply_alike (s : Scale) {x x' : Float} (h : Alike x x') :
    Alike (s.apply x) (s.apply x') := by
  have hlinear : Alike (s.linear x) (s.linear x') := by
    unfold linear
    dsimp only
    split
    · exact .refl _
    · exact .add (.refl _) (((h.sub (.refl _)).mul_right _).div_right _)
  have hclamped : Alike (s.clamped (s.linear x)) (s.clamped (s.linear x')) := by
    unfold clamped
    split_ifs
    · exact hlinear
    · exact limit_congr hlinear _ _
    · exact limit_congr hlinear _ _
  unfold apply
  dsimp only
  split
  · exact hclamped.roundTo _
  · exact hclamped

/-! ### The same answers -/

/-- Two commands differ at most in a value that is written, and there it is the same. -/
inductive Command.Same : Command → Command → Prop
  | refl (c : Command) : Same c c
  | write {signal : String} {value value' : Value} {ack : Bool} (h : value.same value' = true) :
      Same (.write signal value ack) (.write signal value' ack)

/-- Two reactions have the same outputs and commands, and their private states are related. -/
structure Reaction.Same {σ : Type} (S : σ → σ → Prop) (r r' : Reaction σ) : Prop where
  state : S r.state r'.state
  outputs : List.Forall₂ (fun a a' => Value.same a a' = true) r.outputs r'.outputs
  commands : List.Forall₂ Command.Same r.commands r'.commands

/-- Two output bridges have written the same value at the same time, and the same value waits. -/
structure OutputBridge.Same (b b' : OutputBridge) : Prop where
  signal_eq : b.signal = b'.signal
  interval_eq : b.interval = b'.interval
  ack_eq : b.ack = b'.ack
  lastWrite : Option.Rel (fun w w' => w.1.same w'.1 = true ∧ w.2 = w'.2) b.lastWrite b'.lastWrite
  waiting : Option.Rel (fun a a' => Value.same a a' = true) b.waiting b'.waiting

/-- Two behaviours differ at most in values that an output bridge keeps, and there they are the
same. -/
inductive Behavior.Same : Behavior → Behavior → Prop
  | refl (b : Behavior) : Same b b
  | outputBridge {b b' : OutputBridge} (h : b.Same b') : Same (.outputBridge b) (.outputBridge b')

/-- Two evaluations fail for one reason, or give the same reaction. -/
inductive SameAnswer :
    Except EvalError (Reaction Behavior) → Except EvalError (Reaction Behavior) → Prop
  | error (e : EvalError) : SameAnswer (.error e) (.error e)
  | ok {r r' : Reaction Behavior} (h : r.Same Behavior.Same r') : SameAnswer (.ok r) (.ok r')

namespace Reaction.Same

variable {σ τ : Type} {S : σ → σ → Prop} {T : τ → τ → Prop} {r r' : Reaction σ} {state state' : σ}

theorem refl {r : Reaction σ} (h : S r.state r.state) : r.Same S r :=
  ⟨h, List.forall₂_same.2 fun a _ => a.same_refl, List.forall₂_same.2 fun c _ => .refl c⟩

theorem out {value value' : Value} (h : S state state') (hvalue : value.same value' = true) :
    Same S (.out state value) (.out state' value') :=
  ⟨h, .cons hvalue .nil, .nil⟩

/-- Keeping the outputs is the same where they and the commands are. -/
theorem keep {v v' : View} {commands commands' : List Command} (h : S state state')
    (houtputs : v.ports.outputs = v'.ports.outputs)
    (hcommands : List.Forall₂ Command.Same commands commands') :
    Same S (.keep state v commands) (.keep state' v' commands') := by
  refine ⟨h, ?_, hcommands⟩
  show List.Forall₂ _ v.ports.outputs v'.ports.outputs
  rw [houtputs]
  exact List.forall₂_same.2 fun a _ => a.same_refl

/-- Embedding the states in another type respects the relation. -/
theorem map {f : σ → τ} (hf : ∀ {s s'}, S s s' → T (f s) (f s')) (h : r.Same S r') :
    (r.map f).Same T (r'.map f) :=
  ⟨hf h.state, h.outputs, h.commands⟩

end Reaction.Same

theorem SameAnswer.refl (answer : Except EvalError (Reaction Behavior)) :
    SameAnswer answer answer := by
  cases answer with
  | error e => exact .error e
  | ok r => exact .ok (.refl (.refl _))

/-! ### Output bridges -/

namespace OutputBridge

variable {b b' : OutputBridge} {a a' : Value}

theorem Same.refl (b : OutputBridge) : b.Same b := by
  refine ⟨rfl, rfl, rfl, ?_, ?_⟩
  · cases b.lastWrite with
    | none => exact .none
    | some w => exact .some ⟨w.1.same_refl, rfl⟩
  · cases b.waiting with
    | none => exact .none
    | some a => exact .some a.same_refl

/-- The same value repeats the same last write. -/
theorem repeats_congr (h : b.Same b') (ha : a.same a' = true) : b.repeats a = b'.repeats a' := by
  have hwrite := h.lastWrite
  unfold repeats
  generalize b.lastWrite = w at hwrite
  generalize b'.lastWrite = w' at hwrite
  cases hwrite with
  | none => rfl
  | some hsame =>
    dsimp only
    rw [Value.same_congr hsame.1, Value.same_comm, Value.same_congr ha, Value.same_comm]

/-- Bridges that differ in their values wait equally long. -/
theorem delay?_congr (h : b.Same b') (now : Moment) : b.delay? now = b'.delay? now := by
  have hwrite := h.lastWrite
  unfold delay?
  rw [h.interval_eq]
  generalize b.lastWrite = w at hwrite
  generalize b'.lastWrite = w' at hwrite
  cases hwrite with
  | none => rfl
  | some hsame =>
    dsimp only
    rw [hsame.2]

/-- Whether a value waits does not depend on which one. -/
theorem Same.isSome_waiting (h : b.Same b') : b.waiting.isSome = b'.waiting.isSome := by
  have hwaiting := h.waiting
  generalize b.waiting = w at hwaiting
  generalize b'.waiting = w' at hwaiting
  cases hwaiting <;> rfl

/-- Bridges that are the same stay so when they write values that are the same. -/
theorem Same.written (h : b.Same b') (ha : a.same a' = true) (now : Moment) :
    (b.written a now).Same (b'.written a' now) :=
  ⟨h.signal_eq, h.interval_eq, h.ack_eq, .some ⟨ha, rfl⟩, .none⟩

/-- An output bridge reacts in the same way to inputs that are the same. -/
theorem Same.onInputs_same (h : b.Same b') {v v' : View}
    (hinput : (v.input 0).same (v'.input 0) = true) (houtputs : v.ports.outputs = v'.ports.outputs)
    (hreading : v.reading = v'.reading) :
    (b.onInputs v).Same OutputBridge.Same (b'.onInputs v') := by
  unfold onInputs
  dsimp only
  rw [Value.isNull_congr hinput, repeats_congr h hinput, delay?_congr h, h.isSome_waiting, hreading]
  split
  · exact .keep h houtputs .nil
  · split
    · exact .keep ⟨h.signal_eq, h.interval_eq, h.ack_eq, h.lastWrite, .none⟩ houtputs
        (List.forall₂_same.2 fun c _ => .refl c)
    · split
      · exact .keep ⟨h.signal_eq, h.interval_eq, h.ack_eq, h.lastWrite, .some hinput⟩ houtputs
          (.cons (.refl _) .nil)
      · rw [h.signal_eq, h.ack_eq]
        exact .keep (h.written hinput _) houtputs (.cons (.refl _) (.cons (.write hinput) .nil))

theorem Same.react_same (h : b.Same b') {v v' : View} (htrigger : v.trigger = v'.trigger)
    (hinput : (v.input 0).same (v'.input 0) = true) (houtputs : v.ports.outputs = v'.ports.outputs)
    (hreading : v.reading = v'.reading) : (b.react v).Same OutputBridge.Same (b'.react v') := by
  unfold react
  rw [htrigger]
  split
  · have hwaiting := h.waiting
    generalize b.waiting = w at hwaiting ⊢
    generalize b'.waiting = w' at hwaiting ⊢
    cases hwaiting with
    | none => exact .keep h houtputs .nil
    | some hsame =>
      dsimp only
      rw [h.signal_eq, h.ack_eq, hreading]
      exact .keep (h.written hsame _) houtputs (.cons (.write hsame) .nil)
  · exact h.onInputs_same hinput houtputs hreading

end OutputBridge

/-! ### All nodes -/

/-- The view with other inputs. -/
def View.withInputs (v : View) (inputs : List Value) : View :=
  { v with ports := { v.ports with inputs := inputs } }

namespace Behavior

variable {b b' : Behavior} {v : View} {inputs : List Value}

/-- A node gives the same answer on the same inputs. -/
theorem react_same (hb : b.Same b')
    (hinput : ∀ i, (v.input i).same ((v.withInputs inputs).input i) = true) :
    SameAnswer (b.react v) (b'.react (v.withInputs inputs)) := by
  have hlevel : ∀ i, (v.withInputs inputs).level i = v.level i :=
    fun i => (Value.truth_congr (hinput i)).symm
  cases hb with
  | outputBridge h => exact .ok (.map .outputBridge (h.react_same rfl (hinput 0) rfl rfl))
  | refl =>
    cases b with
    | const => exact .refl _
    | inputBridge => exact .ok (.keep (.refl _) rfl .nil)
    | invert => exact .ok (.out (.refl _) (invert_congr (hinput 0)))
    | gate g => exact .ok (.out (.refl _) (g.output_congr (hinput 0) (hinput 1)))
    | comparison c => exact .ok (.out (.refl _) (c.output_congr (hinput 0) (hinput 1)))
    | clamp c => exact .ok (.out (.refl _) (c.output_congr (hinput 0)))
    | operation o =>
      simp only [react, Operation.output]
      have hx := Value.numberOr_congr (hinput 0) 0.0
      have hy := Value.numberOr_congr (hinput 1) 0.0
      rcases o.apply_alike hx hy with ⟨e, he, he'⟩ | ⟨z, z', hz, hz', halike⟩
      · rw [he, he']
        exact .error e
      · rw [hz, hz']
        exact .ok (.out (.refl _) ((Value.same_num_iff z z').2 halike))
    | scale s =>
      simp only [react, Scale.output?]
      rcases Value.number?_congr (hinput 0) with heq | ⟨x, x', hx, hx', halike⟩
      · rw [heq]
        cases ((v.withInputs inputs).input 0).number? with
        | none => exact .ok (.keep (.refl _) rfl .nil)
        | some x => exact .refl _
      · rw [hx, hx']
        exact .ok (.out (.refl _) ((Value.same_num_iff _ _).2 (s.apply_alike halike)))
    | outputBridge o =>
      exact .ok (.map .outputBridge ((OutputBridge.Same.refl o).react_same rfl (hinput 0) rfl rfl))
    | edge | toggle | setReset | delayOn | delayOff | pulse | staircase | schedule | impulseCounter
    | counter | hourMeter | sceneTrigger =>
      -- these read levels alone, and the same values have one level
      simp only [react, EdgeDetector.react, EdgeDetector.onInputs, Toggle.react, SetReset.react,
        DelayOn.react, DelayOff.react, Pulse.react, Staircase.react, WeeklySchedule.react,
        ImpulseCounter.react, Counter.react, HourMeter.react, SceneTrigger.react,
        SceneTrigger.onInputs, hlevel]
      exact .refl _

/-- No answer of a node depends on which of two values stands at an input. -/
def Unaffected (b : Behavior) (a a' : Value) : Prop :=
  ∀ (v : View) (port : Nat), SameAnswer (b.react (v.withInputs (v.ports.inputs.set port a)))
    (b.react (v.withInputs (v.ports.inputs.set port a')))

/-- No node is affected if a value gives way to one that is the same. -/
theorem unaffected_of_same (b : Behavior) {a a' : Value} (h : a.same a' = true) :
    b.Unaffected a a' := by
  intro v port
  refine react_same (v := v.withInputs (v.ports.inputs.set port a)) (.refl b) fun i => ?_
  show ((v.ports.inputs.set port a).getD i .null).same
    ((v.ports.inputs.set port a').getD i .null) = true
  rw [List.getD_eq_getElem?_getD, List.getD_eq_getElem?_getD, List.getElem?_set, List.getElem?_set]
  split_ifs
  · exact h
  · exact Value.same_refl _
  · exact Value.same_refl _

end Behavior

end SignalGraph
