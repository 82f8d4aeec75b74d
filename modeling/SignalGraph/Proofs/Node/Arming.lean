import SignalGraph.Proofs.Node.History

/-!
# The timers that a node arms

Every kind of node has keys of its own for its timers (`Behavior.owns`), and armed timers stand
under no others (`Node.Undergoes.keyed`). `Behavior.issues_of_react` lists the commands that a node
may give. Of all timers only those of a configured length (`Behavior.length?`) can be due at once,
and a node does not arm them when one of its own timers fires (`Behavior.Issues.length?_eq_zero`).
-/

namespace SignalGraph

namespace Behavior

/-- Whether a node with this behaviour arms timers under this key. -/
def owns : Behavior → TimerKey → Bool
  | .edge _, .reset => true
  | .delayOn _, .main | .delayOff _, .main | .pulse _, .main | .staircase _, .main => true
  | .schedule _, .tick | .hourMeter _, .tick => true
  | .outputBridge _, .throttle => true
  | .sceneTrigger _, .pulse _ => true
  | _, _ => false

/-- The configured length of the timers that a node with this behaviour arms, in milliseconds. -/
def length? : Behavior → Option Nat
  | .edge e => some e.pulse
  | .delayOn d => some d.delay
  | .delayOff d => some d.hold
  | .pulse p => some p.duration
  | .staircase s => some s.duration
  | _ => none

theorem owns_parameters (b : Behavior) (key : TimerKey) : b.parameters.owns key = b.owns key := by
  cases b <;> cases key <;> rfl

theorem length?_parameters (b : Behavior) : b.parameters.length? = b.length? := by
  cases b <;> rfl

variable {b : Behavior} {v : View} {r : Reaction Behavior}

theorem owns_state (h : b.react v = .ok r) (key : TimerKey) : r.state.owns key = b.owns key := by
  rw [← owns_parameters, (kept_of_react h).parameters_eq, owns_parameters]

/-! ### Commands -/

/-- The commands that a node may give when it is evaluated. -/
inductive Issues (b : Behavior) (v : View) : Command → Prop
  /-- A timer of the configured length starts, but not when one of the node's timers has fired. -/
  | length {key : TimerKey} {delay : Nat} (howns : b.owns key = true)
    (hlength : b.length? = some delay)
    (hforeign : ∀ fired, v.trigger = .timer fired → b.owns fired = false) :
    Issues b v (.arm key delay)
  | tick (howns : b.owns .tick = true) : Issues b v (.arm .tick v.reading.untilTick)
  | throttle {delay : Nat} (howns : b.owns .throttle = true) (hpos : 0 < delay) :
    Issues b v (.arm .throttle delay)
  | cancel {key : TimerKey} : Issues b v (.cancel key)
  | write {signal : String} {value : Value} {ack : Bool} : Issues b v (.write signal value ack)
  | trigger {scene fallback : Option String} {payload : Value} {ack : Bool} {pulse : Nat}
    (howns : ∀ signal, b.owns (.pulse signal) = true) :
    Issues b v (.trigger scene fallback payload ack pulse)

theorem Issues.owns {key : TimerKey} {delay : Nat} (h : b.Issues v (.arm key delay)) :
    b.owns key = true := by
  cases h <;> assumption

/-- A timer that is due at once has a configured length of zero, and no timer of the node has fired
just now. -/
theorem Issues.length?_eq_zero {key : TimerKey} (h : b.Issues v (.arm key 0))
    (htick : 0 < v.reading.untilTick) :
    b.length? = some 0 ∧ ∀ fired, v.trigger = .timer fired → b.owns fired = false := by
  generalize hdelay : (0 : Nat) = delay at h htick
  cases h with
  | length _ hlength hforeign => exact ⟨hlength, hforeign⟩
  | tick => omega
  | throttle _ hpos => omega

/-- Every command of a node is one that it may give. -/
theorem issues_of_react (h : b.react v = .ok r) {command : Command}
    (hcommand : command ∈ r.commands) : b.Issues v command := by
  obtain ⟨trigger, ports, timers, reading⟩ := v
  cases b with
  | schedule s =>
    cases h
    rw [List.mem_singleton.1 hcommand]
    exact .tick rfl
  | hourMeter m =>
    cases h
    rw [List.mem_singleton.1 hcommand]
    split
    · exact .tick rfl
    · exact .cancel
  | outputBridge o =>
    cases h
    dsimp only [Reaction.map, OutputBridge.react, OutputBridge.onInputs] at hcommand
    repeat' split at hcommand
    all_goals simp only [Reaction.keep, List.mem_cons, List.not_mem_nil, or_false] at hcommand
    all_goals first
      | exact hcommand.elim
      | rcases hcommand with rfl | rfl; exact .cancel; exact .write
      | subst hcommand
    · exact .write
    · exact .cancel
    · next delay hdelay =>
      -- a write waits only while its interval has not passed
      refine .throttle rfl ?_
      unfold OutputBridge.delay? at hdelay
      dsimp only at hdelay
      split at hdelay
      · split at hdelay <;> cases hdelay
        omega
      · cases hdelay
  | sceneTrigger s =>
    cases h
    dsimp only [Reaction.map, SceneTrigger.react, SceneTrigger.onInputs] at hcommand
    repeat' split at hcommand
    · rw [List.mem_singleton.1 hcommand]
      exact .write
    · rw [List.mem_singleton.1 hcommand]
      exact .trigger fun _ => rfl
    · cases hcommand
  | operation o =>
    obtain ⟨value, -, rfl⟩ := exists_of_map_eq_ok h
    cases hcommand
  | scale s =>
    simp only [react] at h
    split at h <;> cases h <;> cases hcommand
  | edge _ | delayOn _ | delayOff _ | pulse _ | staircase _ =>
    -- unless the node's own timer has fired, it may start one of the configured length
    have hforeign : ∀ {own : TimerKey} {b : Behavior}, (∀ key, b.owns key = true → key = own) →
        (trigger = .timer own → False) →
        ∀ fired, trigger = .timer fired → b.owns fired = false := by
      intro own b hown hother fired hfired
      cases howns : b.owns fired with
      | false => rfl
      | true => exact (hother (hown fired howns ▸ hfired)).elim
    cases h
    dsimp only [Reaction.map, Reaction.out, EdgeDetector.react, EdgeDetector.onInputs,
      DelayOn.react, DelayOff.react, Pulse.react, Staircase.react] at hcommand
    repeat' split at hcommand
    all_goals first
      | exact (List.not_mem_nil hcommand).elim
      | rw [List.mem_singleton.1 hcommand]
    all_goals first
      | exact .cancel
      | refine .length rfl rfl (hforeign (fun key hkey => ?_) ‹_›)
        cases key <;> first | rfl | cases hkey
  | _ =>
    -- the other nodes have no timers and no signals
    cases h
    cases hcommand

end Behavior

/-! ### Armed timers -/

/-- A node whose armed timers stand under its own keys. -/
def Node.Keyed (n : Node) : Prop :=
  ∀ timer ∈ n.timers, n.behavior.owns timer.key = true

namespace ArmedTimers

variable {b : Behavior} {v : View} {time : Nat} {timers timers' : ArmedTimers}

theorem Obeys.owns {command : Command} (h : timers.Obeys time command timers')
    (hissues : b.Issues v command) (htimers : ∀ timer ∈ timers, b.owns timer.key = true) :
    ∀ timer ∈ timers', b.owns timer.key = true := by
  have hremoved : ∀ key, ∀ timer ∈ timers.remove key, b.owns timer.key = true :=
    fun _ timer htimer => htimers timer (List.mem_of_mem_eraseP htimer)
  have hput : ∀ {key : TimerKey} (new : ArmedTimer), new.key = key → b.owns key = true →
      ∀ timer ∈ timers.remove key ++ [new], b.owns timer.key = true := by
    rintro _ new rfl hnew timer htimer
    rcases List.mem_append.1 htimer with hold | hlast
    · exact hremoved _ timer hold
    · rw [List.mem_singleton.1 hlast]
      exact hnew
  cases h with
  | arm new hkey => exact hput new hkey hissues.owns
  | cancel => exact hremoved _
  | write | trigger => exact htimers
  | pulse new hkey =>
    cases hissues with
    | trigger howns => exact hput new hkey (howns _)

theorem ObeysAll.owns {commands : List Command} (h : ObeysAll time commands timers timers')
    (hissues : ∀ command ∈ commands, b.Issues v command)
    (htimers : ∀ timer ∈ timers, b.owns timer.key = true) :
    ∀ timer ∈ timers', b.owns timer.key = true := by
  induction h with
  | nil => exact htimers
  | cons hfirst _ ih =>
    obtain ⟨hissued, hrest⟩ := List.forall_mem_cons.1 hissues
    exact ih hrest (hfirst.owns hissued htimers)

end ArmedTimers

namespace Node

variable {n n' : Node} {ep : Episode}

theorem Evaluates.keyed {trigger : Trigger} {time : Nat} {reading : Reading}
    {commands : List Command} (h : n.Evaluates trigger time reading commands n') (hn : n.Keyed) :
    n'.Keyed := by
  cases h with
  | failed => exact hn
  | @reacted r timers hreact hobeys =>
    intro timer htimer
    show r.state.owns timer.key = true
    rw [Behavior.owns_state hreact]
    exact hobeys.owns (fun _ => Behavior.issues_of_react hreact) hn timer htimer

/-- Whatever happens to a node, its timers stay under its own keys. -/
theorem Undergoes.keyed (h : n.Undergoes ep n') (hn : n.Keyed) : n'.Keyed := by
  cases h with
  | stored | received => exact hn
  | delivered _ _ hevaluates => exact hevaluates.keyed (n := n.receive _ _) hn
  | primed _ _ hevaluates => exact hevaluates.keyed hn
  | dropped _ hsub => exact fun timer htimer => hn timer (hsub.subset htimer)
  | fired _ hsub _ hevaluates =>
    exact hevaluates.keyed fun timer htimer => hn timer (hsub.subset htimer)

end Node

end SignalGraph
