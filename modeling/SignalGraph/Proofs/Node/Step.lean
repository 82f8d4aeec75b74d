import Mathlib.Data.List.Nodup
import Mathlib.Logic.Relation
import SignalGraph.Graph.Basic
import SignalGraph.Proofs.Node.Reaction

/-!
# What can happen to a node

`Node.Step` lists everything that changes a node of a running graph: an evaluation, an input that is
stored and evaluated, a timer that is forgotten, and a value that an input bridge shows. All but the
last are `Node.Work`, which goes on inside a pass. A property that every step keeps holds of a node
throughout: the plan of the node never changes (`Step.plan_eq`), its ports stay as many as its type
declares (`Step.fits`), and it never has two timers under one key (`Step.uniqueKeys`).
-/

namespace SignalGraph

/-! ### Timers -/

namespace ArmedTimers

/-- The timers that commands can make of `timers`. -/
inductive Changes (timers : ArmedTimers) : ArmedTimers → Prop
  | refl : Changes timers timers
  | remove {t : ArmedTimers} (key : TimerKey) : Changes timers t → Changes timers (t.remove key)
  | put {t : ArmedTimers} (timer : ArmedTimer) :
    Changes timers t → Changes timers (t.remove timer.key ++ [timer])

theorem Changes.trans {t₁ t₂ t₃ : ArmedTimers} (h : Changes t₁ t₂) (h' : Changes t₂ t₃) :
    Changes t₁ t₃ := by
  induction h' with
  | refl => exact h
  | remove key _ ih => exact .remove key ih
  | put timer _ ih => exact .put timer ih

/-- No two timers have the same key. -/
def UniqueKeys (timers : ArmedTimers) : Prop :=
  (timers.map ArmedTimer.key).Nodup

theorem UniqueKeys.sublist {t t' : ArmedTimers} (h : UniqueKeys t) (hsub : t'.Sublist t) :
    UniqueKeys t' :=
  List.Nodup.sublist (hsub.map _) h

theorem UniqueKeys.remove {timers : ArmedTimers} (h : timers.UniqueKeys) (key : TimerKey) :
    (timers.remove key).UniqueKeys :=
  UniqueKeys.sublist h List.eraseP_sublist

/-- The key of a timer that has been removed is free. -/
theorem UniqueKeys.key_notMem_remove {timers : ArmedTimers} (h : timers.UniqueKeys)
    (key : TimerKey) : key ∉ (timers.remove key).map ArmedTimer.key := by
  induction timers with
  | nil => simp [ArmedTimers.remove]
  | cons t rest ih =>
    obtain ⟨hfirst, hrest⟩ := List.nodup_cons.1 h
    unfold ArmedTimers.remove
    by_cases hkey : t.key = key
    · rw [List.eraseP_cons_of_pos (by simpa using hkey)]
      exact hkey ▸ hfirst
    · rw [List.eraseP_cons_of_neg (by simpa using hkey), List.map_cons, List.mem_cons, not_or]
      exact ⟨Ne.symm hkey, ih hrest⟩

theorem Changes.uniqueKeys {t t' : ArmedTimers} (hc : Changes t t') (h : t.UniqueKeys) :
    t'.UniqueKeys := by
  induction hc with
  | refl => exact h
  | remove key _ ih => exact ih.remove key
  | put timer _ ih =>
    show (List.map _ (_ ++ [timer])).Nodup
    rw [List.map_append, List.map_singleton, List.nodup_append]
    refine ⟨ih.remove timer.key, List.nodup_singleton _, fun a ha b hb => ?_⟩
    obtain rfl := List.mem_singleton.1 hb
    rintro rfl
    exact ih.key_notMem_remove timer.key ha

theorem takeFired?_eq_some {timers rest : ArmedTimers} {key : TimerKey} {token : Nat}
    (h : timers.takeFired? key token = some rest) :
    rest = timers.eraseP fun t => t.key == key && t.token == token := by
  unfold takeFired? at h
  simp only [Option.ite_none_right_eq_some, Option.some.injEq] at h
  exact h.2.symm

end ArmedTimers

/-! ### Steps -/

namespace Node

/-- The node with a value stored at an input port. -/
def receive (n : Node) (port : Nat) (value : Value) : Node :=
  { n with ports := n.ports.setInputAt port value }

/-- The node with another value at its first output port. -/
def showing (n : Node) (value : Value) : Node :=
  { n with ports := n.ports.setOutputAt 0 value }

/-- What the node sees when it is evaluated. -/
def view (n : Node) (trigger : Trigger) (reading : Reading) : View :=
  { trigger := trigger, ports := n.ports, timers := n.timers, reading := reading }

/-- The node after a reaction whose commands have left it these timers. -/
def after (n : Node) (r : Reaction Behavior) (timers : ArmedTimers) : Node :=
  { n with behavior := r.state, ports := { n.ports with outputs := r.outputs }, timers := timers }

/-- One thing that happens to a node in the course of a pass. -/
inductive Work (n : Node) : Node → Prop
  /-- It is evaluated. -/
  | evaluate {trigger : Trigger} {reading : Reading} {r : Reaction Behavior} {timers : ArmedTimers}
    (henabled : n.enabled = true) (hreact : n.behavior.react (n.view trigger reading) = .ok r)
    (htimers : n.timers.Changes timers) : Work n (n.after r timers)
  /-- It stores an input and is evaluated on it. -/
  | deliver {port : Nat} {value : Value} {reading : Reading} {r : Reaction Behavior}
    {timers : ArmedTimers} (henabled : n.enabled = true)
    (hreact : n.behavior.react ((n.receive port value).view .inputs reading) = .ok r)
    (htimers : n.timers.Changes timers) : Work n ((n.receive port value).after r timers)
  /-- It stores an input, and the evaluation on it fails. -/
  | fail {port : Nat} {value : Value} {reading : Reading} {e : EvalError}
    (henabled : n.enabled = true)
    (hreact : n.behavior.react ((n.receive port value).view .inputs reading) = .error e) :
    Work n (n.receive port value)
  /-- It is disabled and stores an input. -/
  | store {port : Nat} {value : Value} (hdisabled : n.enabled = false) :
    Work n (n.receive port value)
  /-- It forgets some of its timers. -/
  | release {timers : ArmedTimers} (hsub : timers.Sublist n.timers) :
    Work n { n with timers := timers }

/-- One thing that happens to a node of a running graph. -/
inductive Step (n : Node) : Node → Prop
  | work {n' : Node} (hwork : Work n n') : Step n n'
  /-- It is an input bridge and shows a value of its signal. -/
  | inject {b : InputBridge} {value : Value} (henabled : n.enabled = true)
    (hbridge : n.behavior.inputBridge? = some b) : Step n (n.showing (b.cast.apply value))

/-! ### What steps keep -/

/-- What never changes about a node. -/
structure Plan where
  id : String
  enabled : Bool
  type : NodeType
  parameters : Behavior

def plan (n : Node) : Plan :=
  { id := n.id, enabled := n.enabled, type := n.ports.type, parameters := n.behavior.parameters }

variable {n n' : Node}

theorem Step.plan_eq (h : Step n n') : n'.plan = n.plan := by
  cases h with
  | inject => rfl
  | work hwork =>
    cases hwork with
    | evaluate _ hreact | deliver _ hreact =>
      simp [plan, after, receive, Ports.setInputAt, (Behavior.kept_of_react hreact).parameters_eq]
    | fail | store | release => rfl

/-- The node has as many ports as its type and its behaviour say. -/
structure Fits (n : Node) : Prop where
  inputs : n.ports.inputs.length = n.ports.type.inputs.length
  outputs : n.ports.outputs.length = n.behavior.outputCount

theorem Step.fits (h : Step n n') (hf : n.Fits) : n'.Fits := by
  cases h with
  | inject => exact ⟨hf.inputs, by simpa [showing, Ports.setOutputAt] using hf.outputs⟩
  | work hwork =>
    cases hwork with
    | evaluate _ hreact =>
      refine ⟨hf.inputs, ?_⟩
      rw [after, Behavior.outputCount_state hreact]
      exact (Behavior.kept_of_react hreact).length_eq hf.outputs
    | deliver _ hreact =>
      refine ⟨by simpa [after, receive, Ports.setInputAt] using hf.inputs, ?_⟩
      rw [after, Behavior.outputCount_state hreact]
      exact (Behavior.kept_of_react hreact).length_eq hf.outputs
    | fail | store => exact ⟨by simpa [receive, Ports.setInputAt] using hf.inputs, hf.outputs⟩
    | release => exact ⟨hf.inputs, hf.outputs⟩

theorem Step.uniqueKeys (h : Step n n') (hk : n.timers.UniqueKeys) : n'.timers.UniqueKeys := by
  cases h with
  | inject => exact hk
  | work hwork =>
    cases hwork with
    | evaluate _ _ htimers | deliver _ _ htimers => exact htimers.uniqueKeys hk
    | fail | store => exact hk
    | release hsub => exact hk.sublist hsub

end Node

end SignalGraph
