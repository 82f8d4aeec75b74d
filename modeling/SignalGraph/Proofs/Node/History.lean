import Mathlib.Data.List.Induction
import SignalGraph.Proofs.Node.Step

/-!
# What has happened to a node

An episode is one thing that happens to a node of a running graph, with the virtual time, what the
node sees of it, and what the node asks for in return. `Node.Undergoes` says what becomes of the
node, its ports and its timers, and `Node.Lives` strings episodes together. Whatever happens, an
input port holds the value that was stored there last (`Node.Lives.inputAt_eq`).
-/

namespace SignalGraph

/-! ### Timers under commands -/

/-- The timer is due at this virtual time, if it waits at all. -/
def ArmedTimer.DueAt (timer : ArmedTimer) (time : Nat) : Prop :=
  ∀ ticket, timer.ticket = some ticket → ticket.due = time

/-- The timer waits and is due at this virtual time. -/
def ArmedTimer.Due (timer : ArmedTimer) (time : Nat) : Prop :=
  ∃ ticket, timer.ticket = some ticket ∧ ticket.due = time

namespace ArmedTimers

/-- What a command that is carried out at a virtual time makes of the timers of its node. -/
inductive Obeys (time : Nat) (timers : ArmedTimers) : Command → ArmedTimers → Prop
  | arm {key : TimerKey} {delay : Nat} (timer : ArmedTimer) (hkey : timer.key = key)
    (hdue : timer.DueAt (time + delay)) :
    Obeys time timers (.arm key delay) (timers.remove key ++ [timer])
  | cancel {key : TimerKey} : Obeys time timers (.cancel key) (timers.remove key)
  | write {signal : String} {value : Value} {ack : Bool} :
    Obeys time timers (.write signal value ack) timers
  /-- There is no signal to write to, or no pulse. -/
  | trigger {scene fallback : Option String} {payload : Value} {ack : Bool} {pulse : Nat} :
    Obeys time timers (.trigger scene fallback payload ack pulse) timers
  | pulse {scene fallback : Option String} {payload : Value} {ack : Bool} {pulse : Nat}
    {signal : String} (timer : ArmedTimer) (hkey : timer.key = .pulse signal)
    (hdue : timer.DueAt (time + pulse)) :
    Obeys time timers (.trigger scene fallback payload ack pulse)
      (timers.remove (.pulse signal) ++ [timer])

/-- The same for several commands, one after the other. -/
inductive ObeysAll (time : Nat) : List Command → ArmedTimers → ArmedTimers → Prop
  | nil {timers : ArmedTimers} : ObeysAll time [] timers timers
  | cons {command : Command} {commands : List Command} {timers timers' timers'' : ArmedTimers}
    (hfirst : Obeys time timers command timers') (hrest : ObeysAll time commands timers' timers'') :
    ObeysAll time (command :: commands) timers timers''

variable {time : Nat} {timers timers' : ArmedTimers}

/-- A command arms one timer, cancels timers, or leaves them alone. -/
theorem Obeys.changes {command : Command} (h : Obeys time timers command timers') :
    timers.Changes timers' := by
  cases h with
  | arm timer hkey =>
    subst hkey
    exact .put timer .refl
  | cancel => exact .remove _ .refl
  | write | trigger => exact .refl
  | pulse timer hkey =>
    rw [← hkey]
    exact .put timer .refl

theorem ObeysAll.changes {commands : List Command} (h : ObeysAll time commands timers timers') :
    timers.Changes timers' := by
  induction h with
  | nil => exact .refl
  | cons hfirst _ ih => exact hfirst.changes.trans ih

end ArmedTimers

/-! ### Episodes -/

/-- Why something happens to a node. -/
inductive Occasion where
  /-- Another value is stored at an input port. -/
  | input (port : Nat) (value : Value)
  /-- The node is evaluated after a load. -/
  | primed
  /-- The fire of a timer that the node has armed reaches it. -/
  | fired (timer : ArmedTimer)
  /-- The node is an input bridge and receives a value of its signal. -/
  | received (value : Value)

/-- One thing that happens to a node. -/
structure Episode where
  /-- The virtual time of the timers. -/
  time : Nat
  /-- What the node sees of the time. -/
  reading : Reading
  occasion : Occasion
  /-- What the node asks for; nothing if it is not evaluated. -/
  commands : List Command := []

/-- The value that is stored at an input port, with the number of the port. -/
def Episode.stored? (ep : Episode) : Option (Nat × Value) :=
  match ep.occasion with
  | .input port value => some (port, value)
  | _ => none

/-- The value that is stored at this input port. -/
def Episode.storedAt? (port : Nat) (ep : Episode) : Option Value :=
  ep.stored?.bind fun entry => if entry.1 = port then some entry.2 else none

/-- The values stored at input ports, in order. -/
def stores (eps : List Episode) : List (Nat × Value) :=
  eps.filterMap Episode.stored?

/-- The values stored at one input port, in order. -/
def storedAt (port : Nat) (eps : List Episode) : List Value :=
  eps.filterMap (Episode.storedAt? port)

theorem filterMap_concat {α β : Type} (f : α → Option β) (l : List α) (a : α) :
    (l ++ [a]).filterMap f = l.filterMap f ++ (f a).toList := by
  rw [List.filterMap_append, List.filterMap_cons]
  cases f a <;> rfl

/-- The last episode stores at most one more value. -/
theorem stores_concat (eps : List Episode) (ep : Episode) :
    stores (eps ++ [ep]) = stores eps ++ ep.stored?.toList :=
  filterMap_concat _ _ _

theorem storedAt_concat (port : Nat) (eps : List Episode) (ep : Episode) :
    storedAt port (eps ++ [ep]) = storedAt port eps ++ (ep.storedAt? port).toList :=
  filterMap_concat _ _ _

namespace Node

/-- An evaluation at a virtual time, the commands that the node gives, and the node after it. An
evaluation that fails changes nothing. -/
inductive Evaluates (n : Node) (trigger : Trigger) (time : Nat) (reading : Reading) :
    List Command → Node → Prop
  | failed {e : EvalError} (hreact : n.behavior.react (n.view trigger reading) = .error e) :
    Evaluates n trigger time reading [] n
  | reacted {r : Reaction Behavior} {timers : ArmedTimers}
    (hreact : n.behavior.react (n.view trigger reading) = .ok r)
    (hobeys : ArmedTimers.ObeysAll time r.commands n.timers timers) :
    Evaluates n trigger time reading r.commands (n.after r timers)

/-- What an episode makes of a node. -/
inductive Undergoes (n : Node) : Episode → Node → Prop
  /-- A disabled node stores a value. -/
  | stored {time : Nat} {reading : Reading} {port : Nat} {value : Value}
    (hdisabled : n.enabled = false) (hdiffers : (n.ports.inputAt port).same value = false) :
    Undergoes n ⟨time, reading, .input port value, []⟩ (n.receive port value)
  /-- An enabled node is evaluated on the value as soon as it has stored it. -/
  | delivered {time : Nat} {reading : Reading} {port : Nat} {value : Value}
    {commands : List Command} {n' : Node} (henabled : n.enabled = true)
    (hdiffers : (n.ports.inputAt port).same value = false)
    (hevaluates : (n.receive port value).Evaluates .inputs time reading commands n') :
    Undergoes n ⟨time, reading, .input port value, commands⟩ n'
  | primed {time : Nat} {reading : Reading} {commands : List Command} {n' : Node}
    (henabled : n.enabled = true) (hbridge : n.behavior.inputBridge? = none)
    (hevaluates : n.Evaluates .inputs time reading commands n') :
    Undergoes n ⟨time, reading, .primed, commands⟩ n'
  /-- A disabled node forgets a timer. -/
  | dropped {time : Nat} {reading : Reading} {timer : ArmedTimer} {timers : ArmedTimers}
    (hdisabled : n.enabled = false) (hsub : timers.Sublist n.timers)
    (htimers : n.timers.Perm (timer :: timers)) :
    Undergoes n ⟨time, reading, .fired timer, []⟩ { n with timers := timers }
  /-- An enabled node forgets the timer and is evaluated. -/
  | fired {time : Nat} {reading : Reading} {timer : ArmedTimer} {timers : ArmedTimers}
    {commands : List Command} {n' : Node} (henabled : n.enabled = true)
    (hsub : timers.Sublist n.timers) (htimers : n.timers.Perm (timer :: timers))
    (hevaluates :
      Evaluates { n with timers := timers } (.timer timer.key) time reading commands n') :
    Undergoes n ⟨time, reading, .fired timer, commands⟩ n'
  /-- An input bridge shows a value of its signal. -/
  | received {time : Nat} {reading : Reading} {b : InputBridge} {value : Value}
    (henabled : n.enabled = true) (hbridge : n.behavior.inputBridge? = some b) :
    Undergoes n ⟨time, reading, .received value, []⟩ (n.showing (b.cast.apply value))

/-- The node becomes another one by these episodes. -/
inductive Lives (n₀ : Node) : List Episode → Node → Prop
  | nil : Lives n₀ [] n₀
  | snoc {eps : List Episode} {n n' : Node} {ep : Episode} (hlives : Lives n₀ eps n)
    (hundergoes : n.Undergoes ep n') : Lives n₀ (eps ++ [ep]) n'

variable {n₀ n n' : Node} {eps eps' : List Episode} {ep : Episode}

theorem Lives.trans (h : n₀.Lives eps n) (h' : n.Lives eps' n') : n₀.Lives (eps ++ eps') n' := by
  induction h' with
  | nil =>
    rw [List.append_nil]
    exact h
  | snoc _ hundergoes ih =>
    rw [← List.append_assoc]
    exact .snoc ih hundergoes

theorem Lives.single (h : n.Undergoes ep n') : n.Lives [ep] n' :=
  .snoc .nil h

/-- A life is split at an episode. -/
theorem Lives.split {before after : List Episode} (h : n₀.Lives (before ++ ep :: after) n) :
    ∃ n₁ n₂, n₀.Lives before n₁ ∧ n₁.Undergoes ep n₂ ∧ n₂.Lives after n := by
  induction after using List.reverseRecOn generalizing n with
  | nil =>
    generalize heps : before ++ [ep] = eps at h
    cases h with
    | nil => simp at heps
    | snoc hbefore hundergoes =>
      obtain ⟨rfl, rfl⟩ : _ ∧ _ := by simpa using List.append_inj' heps rfl
      exact ⟨_, n, hbefore, hundergoes, .nil⟩
  | append_singleton after last ih =>
    generalize heps : before ++ ep :: (after ++ [last]) = eps at h
    cases h with
    | nil => simp at heps
    | snoc hlives hundergoes =>
      rw [← List.cons_append, ← List.append_assoc] at heps
      obtain ⟨rfl, rfl⟩ : _ ∧ _ := by simpa using List.append_inj' heps rfl
      obtain ⟨n₁, n₂, hbefore, hfirst, hafter⟩ := ih hlives
      exact ⟨n₁, n₂, hbefore, hfirst, hafter.snoc hundergoes⟩

/-! ### What episodes keep -/

section Steps

variable {trigger : Trigger} {time : Nat} {reading : Reading} {commands : List Command}

/-- An evaluation consists of steps of the node. -/
theorem Evaluates.steps (henabled : n.enabled = true)
    (h : n.Evaluates trigger time reading commands n') : Relation.ReflTransGen Step n n' := by
  cases h with
  | failed => exact .refl
  | reacted hreact hobeys => exact .single (.work (.evaluate henabled hreact hobeys.changes))

/-- An episode is made of steps. -/
theorem Undergoes.steps (h : n.Undergoes ep n') : Relation.ReflTransGen Step n n' := by
  cases h with
  | stored hdisabled => exact .single (.work (.store hdisabled))
  | delivered henabled _ hevaluates =>
    cases hevaluates with
    | failed hreact => exact .single (.work (.fail henabled hreact))
    | reacted hreact hobeys => exact .single (.work (.deliver henabled hreact hobeys.changes))
  | primed henabled _ hevaluates => exact hevaluates.steps henabled
  | dropped _ hsub => exact .single (.work (.release hsub))
  | fired henabled hsub _ hevaluates =>
    exact .head (.work (.release hsub)) (hevaluates.steps henabled)
  | received henabled hbridge => exact .single (.inject henabled hbridge)

end Steps

theorem Lives.steps (h : n₀.Lives eps n) : Relation.ReflTransGen Step n₀ n := by
  induction h with
  | nil => exact .refl
  | snoc _ hundergoes ih => exact ih.trans hundergoes.steps

/-- Steps keep the plan of a node: what it is called, which ports it has and how it is
parametrised. -/
theorem plan_eq_of_steps (h : Relation.ReflTransGen Step n n') : n'.plan = n.plan := by
  induction h with
  | refl => rfl
  | tail _ hstep ih => rw [hstep.plan_eq, ih]

/-- The plan of a node never changes. -/
theorem Lives.plan_eq (h : n₀.Lives eps n) : n.plan = n₀.plan :=
  plan_eq_of_steps h.steps

theorem Lives.enabled_eq (h : n₀.Lives eps n) : n.enabled = n₀.enabled :=
  congrArg Plan.enabled h.plan_eq

theorem Lives.type_eq (h : n₀.Lives eps n) : n.ports.type = n₀.ports.type :=
  congrArg Plan.type h.plan_eq

theorem Lives.parameters_eq (h : n₀.Lives eps n) :
    n.behavior.parameters = n₀.behavior.parameters :=
  congrArg Plan.parameters h.plan_eq

theorem Lives.inputBridge?_eq (h : n₀.Lives eps n) :
    n.behavior.inputBridge? = n₀.behavior.inputBridge? := by
  rw [← Behavior.inputBridge?_parameters, h.parameters_eq, Behavior.inputBridge?_parameters]

/-- An enabled node is evaluated in every episode, unless it is an input bridge. -/
theorem Undergoes.exists_evaluates (h : n.Undergoes ep n') (henabled : n.enabled = true)
    (hbridge : n.behavior.inputBridge? = none) :
    ∃ (m : Node) (trigger : Trigger), m.behavior = n.behavior ∧
      m.Evaluates trigger ep.time ep.reading ep.commands n' := by
  cases h with
  | stored hdisabled | dropped hdisabled => cases henabled.symm.trans hdisabled
  | delivered _ _ hevaluates | primed _ _ hevaluates | fired _ _ _ hevaluates =>
    refine ⟨_, _, ?_, hevaluates⟩
    rfl
  | received _ hsome => cases hbridge.symm.trans hsome

/-- The last thing that has happened to an enabled node is an evaluation, unless it is an input
bridge. -/
theorem Lives.exists_evaluates (h : n₀.Lives eps n) (henabled : n₀.enabled = true)
    (hbridge : n.behavior.inputBridge? = none) (hne : eps ≠ []) :
    ∃ (m : Node) (trigger : Trigger) (time : Nat) (reading : Reading) (commands : List Command),
      m.behavior.parameters = n.behavior.parameters ∧
        m.Evaluates trigger time reading commands n := by
  cases h with
  | nil => exact (hne rfl).elim
  | snoc hlives hundergoes =>
    have hlast := Lives.single hundergoes
    obtain ⟨m, trigger, hbehavior, hevaluates⟩ := hundergoes.exists_evaluates
      (hlives.enabled_eq.trans henabled) (hlast.inputBridge?_eq.symm.trans hbridge)
    exact ⟨m, trigger, _, _, _, by rw [hbehavior, hlast.parameters_eq], hevaluates⟩

/-! ### Input ports -/

/-- An evaluation leaves the inputs as they are. -/
theorem Evaluates.inputs_eq {trigger : Trigger} {time : Nat} {reading : Reading}
    {commands : List Command} (h : n.Evaluates trigger time reading commands n') :
    n'.ports.inputs = n.ports.inputs := by
  cases h <;> rfl

/-- Only the input port at which an episode stores a value changes. -/
theorem Undergoes.inputs_eq (h : n.Undergoes ep n') :
    n'.ports.inputs =
      ep.stored?.elim n.ports.inputs fun entry => n.ports.inputs.set entry.1 entry.2 := by
  cases h with
  | stored | dropped | received => rfl
  | delivered _ _ hevaluates | primed _ _ hevaluates | fired _ _ _ hevaluates =>
    exact hevaluates.inputs_eq

/-- A life leaves their number as it is. -/
theorem Lives.length_inputs (h : n₀.Lives eps n) :
    n.ports.inputs.length = n₀.ports.inputs.length := by
  induction h with
  | nil => rfl
  | @snoc _ _ _ ep _ hundergoes ih =>
    rw [hundergoes.inputs_eq, ← ih]
    cases ep.stored? with
    | none => rfl
    | some entry => exact List.length_set

/-- An input port holds the value that was stored there last. -/
theorem Lives.inputAt_eq (h : n₀.Lives eps n) {port : Nat} (hport : port < n₀.ports.inputs.length) :
    n.ports.inputAt port = (storedAt port eps).getLast?.getD (n₀.ports.inputAt port) := by
  induction h with
  | nil => rfl
  | @snoc eps n n' ep hlives hundergoes ih =>
    have hlength := hlives.length_inputs
    rw [storedAt_concat, Episode.storedAt?, Ports.inputAt, hundergoes.inputs_eq]
    cases ep.stored? with
    | none =>
      rw [Option.bind_none, Option.toList_none, List.append_nil]
      exact ih
    | some entry =>
      rw [Option.bind_some, Option.elim_some, List.getD_eq_getElem?_getD]
      -- the episode stores a value at this port, or at another one
      by_cases hentry : entry.1 = port
      · rw [if_pos hentry, hentry, List.getElem?_set_self (hlength ▸ hport), Option.toList_some,
          List.getLast?_concat]
        rfl
      · rw [if_neg hentry, Option.toList_none, List.append_nil, List.getElem?_set_ne hentry,
          ← List.getD_eq_getElem?_getD]
        exact ih

end Node

end SignalGraph
