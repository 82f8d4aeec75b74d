import SignalGraph.Proofs.Graph.Built
import SignalGraph.Proofs.Node.History
import SignalGraph.Proofs.Node.Kind
import SignalGraph.Proofs.Value.Same

/-!
# Throttled writes

An output bridge writes a new value at once or puts it off until the end of the interval. What it
does in an episode is one of five moves (`Node.Undergoes.outputBridge`). Its timer waits exactly
while a value does, and the values that it tries to write are always the latest and never repeat
(`Node.Lives.throttled`).
-/

namespace SignalGraph

/-! ### Attempts to write -/

/-- An attempt to write a value. -/
structure Attempt where
  /-- The virtual time of the timers. -/
  time : Nat
  /-- The absolute time. -/
  moment : Moment
  /-- Whether the write had been put off, and the timer has fired for it. -/
  deferred : Bool
  value : Value

/-- Whether the timer of a write that was put off fires. -/
def Occasion.isThrottle : Occasion → Bool
  | .fired timer => timer.key == .throttle
  | _ => false

/-- The value that a command writes. -/
def Command.written? : Command → Option Value
  | .write _ value _ => some value
  | _ => none

/-- The attempts to write in an episode. -/
def Episode.attempts (ep : Episode) : List Attempt :=
  (ep.commands.filterMap Command.written?).map fun value =>
    ⟨ep.time, ep.reading.absoluteNow, ep.occasion.isThrottle, value⟩

/-- The attempts of a node to write, in order. -/
def attempts (eps : List Episode) : List Attempt :=
  eps.flatMap Episode.attempts

/-- The latest value at port 0, `in`, that is not `null`. -/
def latest? (eps : List Episode) : Option Value :=
  ((storedAt 0 eps).filter fun value => !value.isNull).getLast?

theorem attempts_concat (eps : List Episode) (ep : Episode) :
    attempts (eps ++ [ep]) = attempts eps ++ ep.attempts := by
  rw [attempts, List.flatMap_append, List.flatMap_singleton, ← attempts]

/-- An episode changes the latest value if it stores one that is not `null`. -/
theorem latest?_concat (eps : List Episode) (ep : Episode) :
    latest? (eps ++ [ep]) =
      (((ep.storedAt? 0).filter fun value => !value.isNull).or (latest? eps)) := by
  rw [latest?, storedAt_concat, List.filter_append, List.getLast?_append, ← latest?]
  cases h : ep.storedAt? 0 with
  | none => rfl
  | some value =>
    by_cases hnull : value.isNull = true <;> simp [hnull, Option.filter]

/-- A value that a port holds is the latest one, unless it is `null`. -/
theorem Node.Lives.latest?_eq {n₀ n : Node} {eps : List Episode} (h : n₀.Lives eps n)
    (hfresh : n₀.Fresh) (hport : 0 < n₀.ports.inputs.length)
    (hvalue : (n.ports.inputAt 0).isNull = false) : latest? eps = some (n.ports.inputAt 0) := by
  have hinput := h.inputAt_eq hport
  rw [hfresh.inputAt_eq] at hinput
  rcases List.eq_nil_or_concat (storedAt 0 eps) with hnil | ⟨before, value, hstored⟩
  · rw [hnil] at hinput
    rw [hinput] at hvalue
    cases hvalue
  · rw [hstored, List.concat_eq_append, List.getLast?_concat, Option.getD_some] at hinput
    rw [hinput] at hvalue
    rw [hinput, latest?, hstored, List.concat_eq_append, List.filter_append]
    simp [hvalue]

/-! ### Moves -/

namespace OutputBridge

/-- The timer waits exactly while a value does. -/
def Armed (b : OutputBridge) (timers : ArmedTimers) : Prop :=
  timers.map ArmedTimer.key = (b.waiting.map fun _ => .throttle).toList

/-- What a bridge does in an episode in which it holds this input. -/
inductive Move (b : OutputBridge) (timers : ArmedTimers) (input : Value) (ep : Episode) :
    OutputBridge → ArmedTimers → Prop
  /-- The input is `null`. -/
  | ignore (hnull : input.isNull = true) (hattempts : ep.attempts = []) :
    Move b timers input ep b timers
  /-- The input repeats the last write, and no value has to wait any more. -/
  | settle (hvalue : input.isNull = false) (hrepeats : b.repeats input = true)
    (hattempts : ep.attempts = []) : Move b timers input ep { b with waiting := none } []
  /-- The input has to wait. -/
  | defer {delay : Nat} {timer : ArmedTimer} (hvalue : input.isNull = false)
    (hnew : b.repeats input = false) (hdelay : b.delay? ep.reading.absoluteNow = some delay)
    (hkey : timer.key = .throttle) (hdue : timer.DueAt (ep.time + delay))
    (hattempts : ep.attempts = []) : Move b timers input ep { b with waiting := some input } [timer]
  /-- The input is written at once. -/
  | write (hvalue : input.isNull = false) (hnew : b.repeats input = false)
    (hdelay : b.delay? ep.reading.absoluteNow = none)
    (hattempts : ep.attempts = [⟨ep.time, ep.reading.absoluteNow, false, input⟩]) :
    Move b timers input ep (b.written input ep.reading.absoluteNow) []
  /-- The timer fires, and the value that waits is written. -/
  | release {timer : ArmedTimer} {value : Value} (htimers : timers = [timer])
    (hoccasion : ep.occasion = .fired timer) (hwaiting : b.waiting = some value)
    (hattempts : ep.attempts = [⟨ep.time, ep.reading.absoluteNow, true, value⟩]) :
    Move b timers input ep (b.written value ep.reading.absoluteNow) []

variable {b b' : OutputBridge} {timers timers' : ArmedTimers} {input : Value} {ep : Episode}

theorem Armed.remove (h : b.Armed timers) : timers.remove .throttle = [] := by
  unfold Armed at h
  cases hwaiting : b.waiting with
  | none =>
    rw [hwaiting, Option.map_none, Option.toList_none, List.map_eq_nil_iff] at h
    rw [h]
    rfl
  | some value =>
    rw [hwaiting, Option.map_some, Option.toList_some] at h
    obtain ⟨timer, rest, rfl, hkey, hrest⟩ := List.map_eq_cons_iff.1 h
    rw [List.map_eq_nil_iff.1 hrest, ArmedTimers.remove, List.eraseP_cons_of_pos (by simp [hkey])]

/-- A timer of the bridge is the only one, and a value waits for it. -/
theorem Armed.exists_of_perm {timer : ArmedTimer} {rest : ArmedTimers} (h : b.Armed timers)
    (hperm : timers.Perm (timer :: rest)) :
    ∃ value, b.waiting = some value ∧ timers = [timer] ∧ rest = [] ∧ timer.key = .throttle := by
  unfold Armed at h
  cases hwaiting : b.waiting with
  | none =>
    rw [hwaiting, Option.map_none, Option.toList_none, List.map_eq_nil_iff] at h
    rw [h] at hperm
    cases hperm.nil_eq
  | some value =>
    rw [hwaiting, Option.map_some, Option.toList_some] at h
    obtain ⟨timer', rest', rfl, hkey, hrest⟩ := List.map_eq_cons_iff.1 h
    rw [List.map_eq_nil_iff.1 hrest] at hperm ⊢
    have hlength := hperm.length_eq
    obtain rfl : rest = [] := List.length_eq_zero_iff.1 (by simpa using hlength.symm)
    obtain rfl : timer' = timer := by simpa using hperm
    exact ⟨value, rfl, rfl, rfl, hkey⟩

theorem Move.armed (hmove : b.Move timers input ep b' timers') (h : b.Armed timers) :
    b'.Armed timers' := by
  cases hmove with
  | ignore => exact h
  | settle | write | release => rfl
  | defer _ _ _ hkey =>
    show [_] = [_]
    rw [hkey]

/-! ### Evaluations -/

section Inputs

variable {v : View}

theorem onInputs_of_isNull (hnull : (v.input 0).isNull = true) : b.onInputs v = .keep b v := by
  rw [onInputs, if_pos hnull]

theorem onInputs_of_repeats (hvalue : (v.input 0).isNull = false)
    (hrepeats : b.repeats (v.input 0) = true) :
    b.onInputs v = .keep { b with waiting := none } v
      (if b.waiting.isSome then [.cancel .throttle] else []) := by
  rw [onInputs, if_neg (by simp [hvalue]), if_pos hrepeats]

theorem onInputs_of_delay {delay : Nat} (hvalue : (v.input 0).isNull = false)
    (hnew : b.repeats (v.input 0) = false) (hdelay : b.delay? v.reading.absoluteNow = some delay) :
    b.onInputs v = .keep { b with waiting := some (v.input 0) } v [.arm .throttle delay] := by
  rw [onInputs, if_neg (by simp [hvalue]), if_neg (by simp [hnew]), hdelay]

theorem onInputs_of_no_delay (hvalue : (v.input 0).isNull = false)
    (hnew : b.repeats (v.input 0) = false) (hdelay : b.delay? v.reading.absoluteNow = none) :
    b.onInputs v = .keep (b.written (v.input 0) v.reading.absoluteNow) v
      [.cancel .throttle, .write b.signal (v.input 0) b.ack] := by
  rw [onInputs, if_neg (by simp [hvalue]), if_neg (by simp [hnew]), hdelay]

end Inputs

end OutputBridge

namespace Node

variable {n n' : Node} {b : OutputBridge} {ep : Episode}

/-- An evaluation on the input is a move. -/
theorem Evaluates.outputBridge (ep : Episode)
    (h : n.Evaluates .inputs ep.time ep.reading ep.commands n')
    (hoccasion : ep.occasion.isThrottle = false) (hb : n.behavior = .outputBridge b)
    (harmed : b.Armed n.timers) :
    ∃ b', n'.behavior = .outputBridge b' ∧
      b.Move n.timers (n'.ports.inputAt 0) ep b' n'.timers := by
  obtain ⟨time, reading, occasion, commands⟩ := ep
  dsimp only at h hoccasion
  cases h with
  | failed hreact =>
    rw [hb] at hreact
    cases hreact
  | @reacted r timers hreact hobeys =>
    rw [hb] at hreact
    obtain rfl : (b.onInputs (n.view .inputs reading)).map .outputBridge = r := Except.ok.inj hreact
    -- one case for each constructor of `Move`, in the order in which the bridge decides
    show ∃ b', ((b.onInputs (n.view .inputs reading)).map _).state = _ ∧
      b.Move n.timers (n.ports.inputAt 0) _ b' timers
    cases hvalue : (n.ports.inputAt 0).isNull with
    | true =>
      rw [OutputBridge.onInputs_of_isNull (v := n.view .inputs reading) hvalue] at hobeys ⊢
      cases hobeys
      exact ⟨b, rfl, .ignore hvalue rfl⟩
    | false =>
      cases hrepeats : b.repeats (n.ports.inputAt 0) with
      | true =>
        rw [OutputBridge.onInputs_of_repeats (v := n.view .inputs reading) hvalue hrepeats]
          at hobeys ⊢
        refine ⟨_, rfl, ?_⟩
        -- a value that repeats the last one withdraws the value that waits, if there is one
        cases hwaiting : b.waiting with
        | none =>
          rw [hwaiting] at hobeys
          have hnil : n.timers = [] := by
            rwa [OutputBridge.Armed, hwaiting, Option.map_none, Option.toList_none,
              List.map_eq_nil_iff] at harmed
          obtain _ | _ := hobeys
          rw [hnil]
          exact .settle hvalue hrepeats rfl
        | some value =>
          rw [hwaiting] at hobeys
          obtain _ | ⟨hcancel, hrest⟩ := hobeys
          obtain _ | _ := hrest
          cases hcancel
          rw [harmed.remove]
          exact .settle hvalue hrepeats rfl
      | false =>
        cases hdelay : b.delay? reading.absoluteNow with
        | some delay =>
          rw [OutputBridge.onInputs_of_delay (v := n.view .inputs reading) hvalue hrepeats hdelay]
            at hobeys ⊢
          obtain _ | ⟨hfirst, hrest⟩ := hobeys
          obtain _ | _ := hrest
          cases hfirst with
          | arm timer hkey hdue =>
            rw [harmed.remove]
            exact ⟨_, rfl, .defer hvalue hrepeats hdelay hkey hdue rfl⟩
        | none =>
          rw [OutputBridge.onInputs_of_no_delay (v := n.view .inputs reading) hvalue hrepeats
              hdelay]
            at hobeys ⊢
          obtain _ | ⟨hcancel, hrest⟩ := hobeys
          obtain _ | ⟨hwrite, hrest⟩ := hrest
          obtain _ | _ := hrest
          cases hcancel
          cases hwrite
          rw [harmed.remove]
          refine ⟨_, rfl, .write hvalue hrepeats hdelay ?_⟩
          show [(⟨time, reading.absoluteNow, occasion.isThrottle, _⟩ : Attempt)] = _
          rw [hoccasion]
          rfl

/-- An enabled output bridge makes a move in every episode. -/
theorem Undergoes.outputBridge (h : n.Undergoes ep n') (henabled : n.enabled = true)
    (hb : n.behavior = .outputBridge b) (harmed : b.Armed n.timers) :
    ∃ b', n'.behavior = .outputBridge b' ∧
      b.Move n.timers (n'.ports.inputAt 0) ep b' n'.timers := by
  cases h with
  | stored hdisabled | dropped hdisabled => cases henabled.symm.trans hdisabled
  | received _ hbridge =>
    rw [hb] at hbridge
    cases hbridge
  | @delivered time reading port value commands n' _ _ hevaluates =>
    exact Evaluates.outputBridge (n := n.receive port value)
      ⟨time, reading, .input port value, commands⟩ hevaluates rfl hb harmed
  | @primed time reading commands n' _ _ hevaluates =>
    exact Evaluates.outputBridge ⟨time, reading, .primed, commands⟩ hevaluates rfl hb harmed
  | @fired time reading timer timers commands n' _ hsub htimers hevaluates =>
    -- a bridge that is armed has one timer, which stands for the value that waits
    obtain ⟨value, hwaiting, hsingle, rfl, hkey⟩ := harmed.exists_of_perm htimers
    rw [hkey] at hevaluates
    cases hevaluates with
    | failed hreact =>
      dsimp only at hreact
      rw [hb] at hreact
      cases hreact
    | @reacted r timers hreact hobeys =>
      dsimp only at hreact
      generalize hv : view { n with timers := [] } (.timer .throttle) reading = v at hreact
      rw [hb] at hreact
      have hreacts : b.react v = .keep (b.written value reading.absoluteNow) v
          [.write b.signal value b.ack] := by
        subst hv
        unfold OutputBridge.react
        rw [hwaiting]
        rfl
      obtain rfl : (b.react v).map .outputBridge = r := Except.ok.inj hreact
      rw [hreacts] at hobeys ⊢
      obtain _ | ⟨hwrite, hrest⟩ := hobeys
      obtain _ | _ := hrest
      cases hwrite
      refine ⟨_, rfl, .release hsingle rfl hwaiting ?_⟩
      show [(⟨time, reading.absoluteNow, timer.key == .throttle, value⟩ : Attempt)] = _
      rw [hkey]
      rfl

end Node

/-! ### Lives of output bridges -/

/-- A bridge that has gone through these episodes with these timers left. -/
structure OutputBridge.Throttled (b : OutputBridge) (timers : ArmedTimers) (eps : List Episode) :
    Prop where
  armed : b.Armed timers
  lastWrite_eq : b.lastWrite = (attempts eps).getLast?.map fun a => (a.value, a.moment)
  /-- The value that waits is the latest one, and it is new. -/
  waiting : ∀ value, b.waiting = some value → latest? eps = some value ∧ b.repeats value = false
  /-- If no value waits, the latest one has been written. -/
  settled : b.waiting = none → ∀ value, latest? eps = some value → b.repeats value = true
  chain : (attempts eps).IsChain fun a a' => a.value.same a'.value = false
  /-- What is written is the latest value then. -/
  current : ∀ before ep, before ++ [ep] <+: eps →
    ∀ a ∈ ep.attempts, latest? (before ++ [ep]) = some a.value

/-- A new bridge waits for nothing and has written nothing. -/
theorem OutputBridge.throttled_of_ofParams {p : Params} {b : OutputBridge}
    (h : ofParams p = .ok b) : b.Throttled [] [] := by
  obtain ⟨signal, -, h⟩ := exists_of_bind_eq_ok h
  obtain ⟨interval, -, h⟩ := exists_of_bind_eq_ok h
  obtain ⟨ack, -, h⟩ := exists_of_bind_eq_ok h
  cases h
  refine ⟨rfl, rfl, nofun, nofun, .nil, ?_⟩
  intro before ep hprefix
  have hlength := hprefix.length_le
  simp at hlength

namespace OutputBridge.Throttled

variable {b : OutputBridge} {timers timers' : ArmedTimers} {eps : List Episode} {ep : Episode}

/-- An episode without an attempt changes what waits at most. -/
theorem wait {waiting : Option Value} (h : b.Throttled timers eps) (hattempts : ep.attempts = [])
    (harmed : Armed { b with waiting := waiting } timers')
    (hwaiting : ∀ value, waiting = some value →
      latest? (eps ++ [ep]) = some value ∧ b.repeats value = false)
    (hsettled : waiting = none → ∀ value, latest? (eps ++ [ep]) = some value →
      b.repeats value = true) :
    Throttled { b with waiting := waiting } timers' (eps ++ [ep]) where
  armed := harmed
  lastWrite_eq := by
    rw [attempts_concat, hattempts, List.append_nil]
    exact h.lastWrite_eq
  waiting := hwaiting
  settled := hsettled
  chain := by
    rw [attempts_concat, hattempts, List.append_nil]
    exact h.chain
  current := by
    intro before ep' hprefix a ha
    rcases List.prefix_concat_iff.1 hprefix with heq | hprefix
    · obtain ⟨rfl, hep⟩ := List.append_inj' heq rfl
      obtain rfl : ep' = ep := by simpa using hep
      rw [hattempts] at ha
      cases ha
    · exact h.current before ep' hprefix a ha

/-- An attempt to write a new value that is the latest one. -/
theorem attempt {a : Attempt} (h : b.Throttled timers eps) (hattempts : ep.attempts = [a])
    (hnew : b.repeats a.value = false) (hlatest : latest? (eps ++ [ep]) = some a.value) :
    (b.written a.value a.moment).Throttled [] (eps ++ [ep]) where
  armed := rfl
  lastWrite_eq := by
    rw [attempts_concat, hattempts, List.getLast?_concat]
    rfl
  waiting _ hsome := nomatch hsome
  settled _ value hvalue := by
    rw [hlatest] at hvalue
    cases hvalue
    exact Value.same_refl _
  chain := by
    rw [attempts_concat, hattempts, List.isChain_append]
    refine ⟨h.chain, List.isChain_singleton _, ?_⟩
    intro last hlast first hfirst
    obtain rfl : a = first := by simpa using hfirst
    -- the value was new, so it is not the one of the attempt before
    rw [repeats, h.lastWrite_eq, Option.mem_def.1 hlast] at hnew
    exact hnew
  current := by
    intro before ep' hprefix a' ha'
    rcases List.prefix_concat_iff.1 hprefix with heq | hprefix
    · obtain ⟨rfl, hep⟩ := List.append_inj' heq rfl
      obtain rfl : ep' = ep := by simpa using hep
      rw [hattempts, List.mem_singleton] at ha'
      rw [hlatest, ha']
    · exact h.current before ep' hprefix a' ha'

theorem move {b' : OutputBridge} {input : Value} (h : b.Throttled timers eps)
    (hmove : b.Move timers input ep b' timers')
    (hlatest : latest? (eps ++ [ep]) = if input.isNull then latest? eps else some input) :
    b'.Throttled timers' (eps ++ [ep]) := by
  have harmed := hmove.armed h.armed
  cases hmove with
  | ignore hnull hattempts =>
    rw [if_pos hnull] at hlatest
    refine h.wait hattempts harmed ?_ ?_
    · rw [hlatest]
      exact h.waiting
    · rw [hlatest]
      exact h.settled
  | settle hvalue hrepeats hattempts =>
    rw [hvalue] at hlatest
    -- nothing waits any more, and the latest value is the one written last
    refine h.wait hattempts harmed (fun _ hsome => nomatch hsome) ?_
    intro _ value hvalue'
    rw [hlatest] at hvalue'
    cases hvalue'
    exact hrepeats
  | defer hvalue hnew _ _ _ hattempts =>
    rw [hvalue] at hlatest
    refine h.wait hattempts harmed ?_ (fun hnone => nomatch hnone)
    rintro value ⟨⟩
    exact ⟨hlatest, hnew⟩
  | write hvalue hnew _ hattempts =>
    rw [hvalue] at hlatest
    exact h.attempt hattempts hnew hlatest
  | @release timer value htimers hoccasion hwaiting hattempts =>
    obtain ⟨hlast, hnew⟩ := h.waiting value hwaiting
    -- a timer that fires stores nothing, so the latest value is still the one that waited
    have hstored : ep.storedAt? 0 = none := by
      rw [Episode.storedAt?, Episode.stored?, hoccasion]
      rfl
    refine h.attempt hattempts hnew ?_
    rw [latest?_concat, hstored]
    exact hlast

end OutputBridge.Throttled

namespace Node

variable {n₀ n n' : Node} {eps : List Episode} {ep : Episode}

/-- The latest value after an episode is the one that the port holds, unless it is `null`. -/
theorem Lives.latest?_concat (h : n₀.Lives (eps ++ [ep]) n) (hfresh : n₀.Fresh)
    (hport : 0 < n₀.ports.inputs.length) :
    latest? (eps ++ [ep]) =
      if (n.ports.inputAt 0).isNull then latest? eps else some (n.ports.inputAt 0) := by
  cases hvalue : (n.ports.inputAt 0).isNull with
  | false => exact h.latest?_eq hfresh hport hvalue
  | true =>
    rw [SignalGraph.latest?_concat]
    cases hstored : ep.storedAt? 0 with
    | none => rfl
    | some value =>
      -- the value has been stored at the port and is `null`
      have hinput := h.inputAt_eq hport
      rw [storedAt_concat, hstored, Option.toList_some, List.getLast?_concat] at hinput
      rw [hinput, Option.getD_some] at hvalue
      simp [Option.filter, hvalue]

/-- An output bridge has been one all its life. -/
theorem Lives.exists_outputBridge (h : n₀.Lives eps n) {b : OutputBridge}
    (hb : n.behavior = .outputBridge b) : ∃ b₀, n₀.behavior = .outputBridge b₀ := by
  have hparameters : n₀.behavior.parameters = Behavior.parameters (.outputBridge b) :=
    h.parameters_eq.symm.trans (congrArg Behavior.parameters hb)
  exact Behavior.exists_outputBridge hparameters

/-- A node that was an output bridge when it was new throttles its writes. -/
theorem Lives.throttled (h : n₀.Lives eps n) (hfresh : n₀.Fresh) (henabled : n₀.enabled = true)
    {b₀ : OutputBridge} (hb₀ : n₀.behavior = .outputBridge b₀) :
    ∃ b, n.behavior = .outputBridge b ∧ b.Throttled n.timers eps := by
  obtain ⟨p, hp⟩ := hfresh.exists_params
  rw [hb₀] at hp
  obtain ⟨htype, hbuilt⟩ := Behavior.outputBridge_of_ofParams hp
  have hports : 0 < n₀.ports.inputs.length := by
    rw [hfresh.fits.inputs, htype]
    exact Nat.one_pos
  induction h with
  | nil => exact ⟨b₀, hb₀, hfresh.timers ▸ OutputBridge.throttled_of_ofParams hbuilt⟩
  | @snoc eps n n' ep hlives hundergoes ih =>
    obtain ⟨b, hb, hthrottled⟩ := ih
    have hn : n.enabled = true := hlives.enabled_eq.trans henabled
    obtain ⟨b', hb', hmove⟩ := hundergoes.outputBridge hn hb hthrottled.armed
    have hlatest := (hlives.snoc hundergoes).latest?_concat hfresh hports
    exact ⟨b', hb', hthrottled.move hmove hlatest⟩

end Node

end SignalGraph
