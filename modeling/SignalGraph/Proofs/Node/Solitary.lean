import SignalGraph.Proofs.Node.Edges
import SignalGraph.Proofs.Node.Pace

/-!
# Nodes with one timer

Delays, pulses and the like show one level and keep at most one timer. `Node.Stands` says which
level that is and when the timer is due. An episode is an evaluation on the inputs, or the timer
fires, which happens when it is due, and the node is evaluated without it
(`Node.Undergoes.meets`). What each of the two keeps holds throughout (`Node.Lives.attend`).
-/

namespace SignalGraph

/-! ### One timer -/

/-- There is at most one timer: it has this key, and this is when it is due. -/
def ArmedTimers.Sole (key : TimerKey) (timers : ArmedTimers) : Option Nat → Prop
  | none => timers = []
  | some due => ∃ timer : ArmedTimer, timers = [timer] ∧ timer.key = key ∧ timer.DueAt due

namespace ArmedTimers

variable {key : TimerKey} {timers timers' : ArmedTimers} {due? : Option Nat} {time : Nat}

/-- A sole timer is armed exactly if it is due at some time. -/
theorem Sole.isArmed_eq (h : timers.Sole key due?) : timers.isArmed key = due?.isSome := by
  cases due? with
  | none =>
    obtain rfl : timers = [] := h
    rfl
  | some due =>
    obtain ⟨timer, rfl, rfl, -⟩ := h
    simp [isArmed]

/-- When it is cancelled, no timer is left. -/
theorem Sole.remove_eq (h : timers.Sole key due?) : timers.remove key = [] := by
  cases due? with
  | none =>
    obtain rfl : timers = [] := h
    rfl
  | some due =>
    obtain ⟨timer, rfl, rfl, -⟩ := h
    simp [remove]

/-- Without a command, the timers stay as they are. -/
theorem ObeysAll.eq_of_nil (h : ObeysAll time [] timers timers') : timers' = timers := by
  cases h
  rfl

/-- Without commands, the timer stays. -/
theorem Sole.nil (h : timers.Sole key due?) (hobeys : ObeysAll time [] timers timers') :
    timers'.Sole key due? :=
  hobeys.eq_of_nil ▸ h

/-- After it has been cancelled, there is none. -/
theorem Sole.cancel (h : timers.Sole key due?)
    (hobeys : ObeysAll time [.cancel key] timers timers') : timers'.Sole key none := by
  cases hobeys with
  | cons hfirst hrest =>
    cases hrest
    cases hfirst
    exact h.remove_eq

/-- After it has been armed anew, it is due at the new time. -/
theorem Sole.arm {delay : Nat} (h : timers.Sole key due?)
    (hobeys : ObeysAll time [.arm key delay] timers timers') :
    timers'.Sole key (some (time + delay)) := by
  cases hobeys with
  | cons hfirst hrest =>
    cases hrest
    cases hfirst with
    | arm timer hkey hdue =>
      rw [h.remove_eq]
      exact ⟨timer, rfl, hkey, hdue⟩

/-- The timer that fires is the only one, and none is left. -/
theorem Sole.fired {timer : ArmedTimer} (h : timers.Sole key due?)
    (hperm : timers.Perm (timer :: timers')) (hdue : timer.Due time) :
    timer.key = key ∧ due? = some time ∧ timers' = [] := by
  cases due? with
  | none =>
    obtain rfl : timers = [] := h
    cases hperm.nil_eq
  | some due =>
    obtain ⟨only, rfl, hkey, honly⟩ := h
    obtain ⟨rfl, rfl⟩ : timer = only ∧ timers' = [] := by simpa using hperm.symm.eq_singleton
    obtain ⟨ticket, hticket, rfl⟩ := hdue
    exact ⟨hkey, congrArg some (honly ticket hticket).symm, rfl⟩

end ArmedTimers

namespace Node

/-! ### Levels and timers -/

/-- The level of an input port. -/
def level (n : Node) (port : Nat) : Bool :=
  (n.ports.inputAt port).truth

section View

variable (n : Node) (trigger : Trigger) (reading : Reading)

@[simp] theorem trigger_view : (n.view trigger reading).trigger = trigger := rfl

@[simp] theorem level_view (port : Nat) : (n.view trigger reading).level port = n.level port := rfl

@[simp] theorem output_view (port : Nat) :
    (n.view trigger reading).output port = n.ports.outputAt port := rfl

@[simp] theorem isArmed_view (key : TimerKey) :
    (n.view trigger reading).isArmed key = n.timers.isArmed key := rfl

end View

/-- The node shows this level, and its timer, if it is armed, is due then. -/
structure Displays (n : Node) (key : TimerKey) (out : Bool) (due? : Option Nat) : Prop where
  outputs_eq : n.ports.outputs = [.bool out]
  sole : n.timers.Sole key due?

/-- The level that the node shows at its only output port. -/
def shown? (n : Node) : Option Bool :=
  match n.ports.outputs with
  | [.bool out] => some out
  | _ => none

/-- The same of a node that may not have been evaluated yet. -/
structure Stands (n : Node) (key : TimerKey) (out : Bool) (due? : Option Nat) : Prop where
  settled_eq : settled (n.ports.outputAt 0) = .bool out
  sole : n.timers.Sole key due?

variable {n₀ n n' m : Node} {key : TimerKey} {out : Bool} {due? : Option Nat} {eps : List Episode}
  {ep : Episode} {start : Moment}

/-- A node that shows a truth value has it as its only output. -/
theorem outputs_of_shown? (h : n.shown? = some out) : n.ports.outputs = [.bool out] := by
  unfold shown? at h
  split at h
  · next hout =>
    cases h
    exact hout
  · cases h

theorem Displays.stands (h : n.Displays key out due?) : n.Stands key out due? := by
  refine ⟨?_, h.sole⟩
  rw [Ports.outputAt, h.outputs_eq]
  rfl

theorem Stands.congr (h : n.Stands key out due?) (houtputs : m.ports.outputs = n.ports.outputs)
    (htimers : m.timers = n.timers) : m.Stands key out due? := by
  refine ⟨?_, htimers ▸ h.sole⟩
  rw [Ports.outputAt, houtputs]
  exact h.settled_eq

/-- A node that has just been built shows nothing and has no timer. -/
theorem Fresh.stands (h : n.Fresh) (key : TimerKey) : n.Stands key false none := by
  refine ⟨?_, h.timers⟩
  rw [h.outputAt_eq]
  rfl

/-- A node that stands so shows that truth. -/
theorem Stands.truth_eq (h : n.Stands key out due?) : (n.ports.outputAt 0).truth = out := by
  have hsettled := h.settled_eq
  unfold settled at hsettled
  split at hsettled
  · next hnull =>
    -- what is not shown yet counts as false
    cases hsettled
    cases hvalue : n.ports.outputAt 0 with
    | null => rfl
    | _ =>
      rw [hvalue] at hnull
      cases hnull
  · rw [hsettled]
    rfl

/-! ### Episodes -/

/-- What an episode is for an enabled node whose timer is due then. -/
inductive Meets (n : Node) (key : TimerKey) (due? : Option Nat) (ep : Episode) (n' : Node) : Prop
  /-- An evaluation on the inputs. -/
  | inputs {m : Node} (hoccasion : ∀ timer, ep.occasion ≠ .fired timer)
    (hbehavior : m.behavior = n.behavior) (houtputs : m.ports.outputs = n.ports.outputs)
    (htimers : m.timers = n.timers)
    (hevaluates : m.Evaluates .inputs ep.time ep.reading ep.commands n')
  /-- The timer fires, and the node is evaluated without it. -/
  | fired {m : Node} (hdue : due? = some ep.time) (hstored : ep.stored? = none)
    (hbehavior : m.behavior = n.behavior) (hports : m.ports = n.ports) (htimers : m.timers = [])
    (hevaluates : m.Evaluates (.timer key) ep.time ep.reading ep.commands n')

/-- An enabled node with one timer meets its inputs, or the fire of this timer, and nothing else. -/
theorem Undergoes.meets (h : n.Undergoes ep n') (henabled : n.enabled = true)
    (hbridge : n.behavior.inputBridge? = none) (hsole : n.timers.Sole key due?)
    (hdue : ∀ timer, ep.occasion = .fired timer → timer.Due ep.time) :
    n.Meets key due? ep n' := by
  cases h with
  | stored hdisabled | dropped hdisabled => cases henabled.symm.trans hdisabled
  | delivered _ _ hevaluates | primed _ _ hevaluates =>
    refine .inputs (fun _ => nofun) ?_ ?_ ?_ hevaluates
    all_goals rfl
  | fired _ _ htimers hevaluates =>
    obtain ⟨rfl, hdue, rfl⟩ := hsole.fired htimers (hdue _ rfl)
    refine .fired hdue rfl ?_ ?_ ?_ hevaluates
    all_goals rfl
  | received _ hsome => cases hbridge.symm.trans hsome

/-- The reaction decides what an evaluation makes of the node. -/
theorem Evaluates.of_react {trigger : Trigger} {time : Nat} {reading : Reading}
    {commands : List Command} {r : Reaction Behavior}
    (h : m.Evaluates trigger time reading commands n')
    (hreact : m.behavior.react (m.view trigger reading) = .ok r) :
    n'.behavior = r.state ∧ n'.ports.outputs = r.outputs ∧
      ArmedTimers.ObeysAll time r.commands m.timers n'.timers := by
  cases h with
  | failed herror => cases hreact.symm.trans herror
  | reacted hreact' hobeys =>
    cases hreact.symm.trans hreact'
    exact ⟨rfl, rfl, hobeys⟩

/-- An evaluation leaves the levels of the inputs as they are. -/
theorem Evaluates.level_eq {trigger : Trigger} {time : Nat} {reading : Reading}
    {commands : List Command} (h : m.Evaluates trigger time reading commands n') (port : Nat) :
    n'.level port = m.level port := by
  rw [level, Ports.inputAt, h.inputs_eq]
  rfl

/-- What every episode keeps, given which level the node shows and when its timer is due, holds
throughout. -/
theorem Lives.attend {P : List Episode → Node → Bool → Option Nat → Prop} (key : TimerKey)
    (h : n₀.Lives eps n)
    (hfresh : n₀.Fresh) (henabled : n₀.enabled = true) (hpunctual : Punctual start eps)
    (hbridge : ∀ {eps n out due?}, P eps n out due? → n.behavior.inputBridge? = none)
    (hnew : P [] n₀ false none)
    (hstep : ∀ {eps n ep n' out due?}, n₀.Lives eps n → n.Undergoes ep n' → P eps n out due? →
      n.Stands key out due? → n.Meets key due? ep n' →
      ∃ out' due?', n'.Displays key out' due?' ∧ P (eps ++ [ep]) n' out' due?') :
    ∃ out due?, P eps n out due? ∧ n.Stands key out due? ∧
      (eps ≠ [] → n.Displays key out due?) := by
  induction h with
  | nil => exact ⟨false, none, hnew, hfresh.stands key, fun hne => (hne rfl).elim⟩
  | @snoc eps n n' ep hlives hundergoes ih =>
    obtain ⟨out, due?, hlaw, hstands, -⟩ := ih (hpunctual.sublist (List.sublist_append_left _ _))
    have hn : n.enabled = true := hlives.enabled_eq.trans henabled
    have hmem : ep ∈ eps ++ [ep] := List.mem_append_right _ (List.mem_singleton_self ep)
    have hmeets := hundergoes.meets hn (hbridge hlaw) hstands.sole (hpunctual.due ep hmem)
    obtain ⟨out', due?', hdisplays, hlaw'⟩ := hstep hlives hundergoes hlaw hstands hmeets
    exact ⟨out', due?', hlaw', hdisplays.stands, fun _ => hdisplays⟩

end Node

end SignalGraph
