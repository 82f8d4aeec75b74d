import SignalGraph.Proofs.Graph.Built
import SignalGraph.Proofs.Node.History

/-!
# The kinds of values that nodes show

Each type of node promises a kind of values at its outputs (`NodeType.outputKind`). A reaction keeps
the promise if the outputs kept it before, and an evaluation on the inputs also settles outputs that
are still `null` (`Behavior.admitted_of_react`). The first evaluation of a node is one on its
inputs, as a new node has no timers. So a node keeps its promise as soon as something has happened
to it (`Node.Lives.admits`).
-/

namespace SignalGraph

/-! ### Kinds -/

/-- What an output may show. -/
inductive OutputKind where
  | anything
  | truth
  | number
  /-- A finite number, or `null` while there is none. -/
  | finite
  /-- A number, or `null` while there is none. -/
  | numberOrNull
  /-- What a cast gives, or `null`. -/
  | cast (c : Cast)

/-- The values that a cast names. -/
def Cast.Names : Cast → Value → Prop
  | .auto, _ => True
  | .bool, value => ∃ b, value = .bool b
  | .number, value => ∃ x, value = .num x
  | .string, value => ∃ s, value = .str s

def OutputKind.Admits : OutputKind → Value → Prop
  | .anything, _ => True
  | .truth, value => ∃ b, value = .bool b
  | .number, value => ∃ x, value = .num x
  | .finite, value => value = .null ∨ ∃ x, value = .num x ∧ x.isFinite = true
  | .numberOrNull, value => value = .null ∨ ∃ x, value = .num x
  | .cast c, value => value = .null ∨ c.Names value

/-- What the outputs of a node of this type show; an input bridge has the given cast. -/
def NodeType.outputKind (cast : Cast) : NodeType → OutputKind
  | .not | .and | .or | .xor | .compare | .edge | .edgeRising | .edgeFalling | .edgeBoth | .toggle
  | .rs | .delayOn | .delayOff | .pulse | .staircase | .pulseExtend | .schedule => .truth
  | .clamp | .impulseCounter | .counter | .runtimeHours => .number
  | .add | .sub | .mul | .div | .min | .max => .finite
  | .scale => .numberOrNull
  | .dpIn => .cast cast
  | .const | .dpOut | .scene => .anything

namespace Behavior

/-- The cast of an input bridge. -/
def cast : Behavior → Cast
  | .inputBridge b => b.cast
  | _ => .auto

/-- What the outputs of a node with this behaviour show. -/
def outputKind : Behavior → OutputKind
  | .invert | .gate _ | .comparison _ | .edge _ | .toggle _ | .setReset _ | .delayOn _ | .delayOff _
  | .pulse _ | .staircase _ | .schedule _ => .truth
  | .clamp _ | .impulseCounter _ | .counter _ | .hourMeter _ => .number
  | .operation _ => .finite
  | .scale _ => .numberOrNull
  | .inputBridge b => .cast b.cast
  | .const _ | .outputBridge _ | .sceneTrigger _ => .anything

/-- The cast is a parameter. -/
theorem cast_parameters (b : Behavior) : b.parameters.cast = b.cast := by
  cases b <;> rfl

/-- The kind of the outputs depends on the parameters alone. -/
theorem outputKind_parameters (b : Behavior) : b.parameters.outputKind = b.outputKind := by
  cases b <;> rfl

/-- It is the kind that the node type announces for this cast. -/
theorem outputKind_ofParams {ty : NodeType} {p : Params} {b : Behavior}
    (h : ofParams ty p = .ok b) : b.outputKind = ty.outputKind b.cast := by
  cases builds_of_ofParams h <;> rfl

end Behavior

/-- A cast gives what it names, and leaves `null` alone. -/
theorem Cast.admits_apply (c : Cast) (value : Value) :
    (OutputKind.cast c).Admits (c.apply value) := by
  cases c with
  | auto => exact .inr trivial
  | bool | number | string =>
    cases value with
    | null => exact .inl rfl
    | _ => exact .inr ⟨_, rfl⟩

/-- The result of an operation is finite. -/
theorem Operation.admits_output {o : Operation} {a b value : Value} (h : o.output a b = .ok value) :
    OutputKind.finite.Admits value := by
  obtain ⟨x, hx, rfl⟩ := exists_of_map_eq_ok h
  refine .inr ⟨x, rfl, ?_⟩
  unfold apply at hx
  split at hx
  · cases hx
  · dsimp only at hx
    split at hx
    · next hfinite =>
      cases hx
      exact hfinite
    · cases hx

/-! ### One reaction -/

/-- An output that is not settled is `null`, and the node is evaluated on its inputs. -/
def View.Promising (v : View) (kind : OutputKind) : Prop :=
  ∀ value ∈ v.ports.outputs, kind.Admits value ∨ value = .null ∧ v.trigger = .inputs

namespace View.Promising

variable {v : View} {kind : OutputKind}

/-- The only output of a node. -/
theorem output (h : v.Promising kind) (hlength : v.ports.outputs.length = 1) :
    kind.Admits (v.output 0) ∨ v.output 0 = .null ∧ v.trigger = .inputs := by
  obtain ⟨value, hvalue⟩ := List.length_eq_one_iff.1 hlength
  have houtput : v.output 0 = value := by
    rw [View.output, Ports.outputAt, hvalue]
    rfl
  rw [houtput]
  exact h value (hvalue ▸ List.mem_singleton_self value)

/-- A truth value that is kept, or `false` in place of none, is a truth value. -/
theorem settled_output (h : v.Promising .truth) (hlength : v.ports.outputs.length = 1) :
    OutputKind.truth.Admits (settled (v.output 0)) := by
  rcases h.output hlength with ⟨b, hb⟩ | ⟨hnull, -⟩
  · exact ⟨b, by rw [hb]; rfl⟩
  · exact ⟨false, by rw [hnull]; rfl⟩

/-- A timer that fires finds the output settled. -/
theorem output_of_timer (h : v.Promising kind) (hlength : v.ports.outputs.length = 1)
    {key : TimerKey} (htrigger : v.trigger = .timer key) : kind.Admits (v.output 0) := by
  rcases h.output hlength with hadmits | ⟨-, hinputs⟩
  · exact hadmits
  · cases htrigger.symm.trans hinputs

/-- Outputs that may be `null` need not be settled. -/
theorem keep (h : v.Promising kind) (hnull : kind.Admits .null) :
    ∀ value ∈ v.ports.outputs, kind.Admits value := by
  intro value hvalue
  rcases h value hvalue with hadmits | ⟨rfl, -⟩
  · exact hadmits
  · exact hnull

end View.Promising

section Reactions

variable {v : View}

/-- All outputs of the reaction are of this kind. -/
def Reaction.Admitted {σ : Type} (kind : OutputKind) (r : Reaction σ) : Prop :=
  ∀ value ∈ r.outputs, kind.Admits value

theorem Reaction.admitted_out {σ : Type} {kind : OutputKind} {state : σ} {value : Value}
    {commands : List Command} (h : kind.Admits value) :
    (Reaction.out state value commands).Admitted kind :=
  fun _ hvalue => List.mem_singleton.1 hvalue ▸ h

theorem EdgeDetector.admitted_react (e : EdgeDetector) (h : v.Promising .truth)
    (hlength : v.ports.outputs.length = 1) : (e.react v).Admitted .truth := by
  unfold react onInputs
  dsimp only
  repeat' split
  · exact Reaction.admitted_out ⟨_, rfl⟩
  · exact Reaction.admitted_out ⟨_, rfl⟩
  · exact Reaction.admitted_out (h.settled_output hlength)

theorem DelayOn.admitted_react (d : DelayOn) (h : v.Promising .truth)
    (hlength : v.ports.outputs.length = 1) : (d.react v).Admitted .truth := by
  unfold react
  dsimp only
  split
  · next htrigger =>
    refine Reaction.admitted_out ?_
    split
    · exact ⟨_, rfl⟩
    · exact h.output_of_timer hlength htrigger
  · split
    · exact Reaction.admitted_out (h.settled_output hlength)
    · exact Reaction.admitted_out ⟨_, rfl⟩

theorem DelayOff.admitted_react (d : DelayOff) (h : v.Promising .truth)
    (hlength : v.ports.outputs.length = 1) : (d.react v).Admitted .truth := by
  unfold react
  dsimp only
  split
  · next htrigger =>
    refine Reaction.admitted_out ?_
    split
    · exact h.output_of_timer hlength htrigger
    · exact ⟨_, rfl⟩
  · split
    · exact Reaction.admitted_out ⟨_, rfl⟩
    · exact Reaction.admitted_out (h.settled_output hlength)

theorem Pulse.admitted_react (p : Pulse) (h : v.Promising .truth)
    (hlength : v.ports.outputs.length = 1) : (p.react v).Admitted .truth := by
  unfold react
  dsimp only
  repeat' split
  · exact Reaction.admitted_out ⟨_, rfl⟩
  · exact Reaction.admitted_out ⟨_, rfl⟩
  · exact Reaction.admitted_out (h.settled_output hlength)

theorem Staircase.admitted_react (s : Staircase) (h : v.Promising .truth)
    (hlength : v.ports.outputs.length = 1) : (s.react v).Admitted .truth := by
  unfold react
  dsimp only
  repeat' split
  · exact Reaction.admitted_out ⟨_, rfl⟩
  · exact Reaction.admitted_out ⟨_, rfl⟩
  · exact Reaction.admitted_out ⟨_, rfl⟩
  · exact Reaction.admitted_out (h.settled_output hlength)

theorem ImpulseCounter.admitted_react (c : ImpulseCounter) (v : View) :
    (c.react v).Admitted .number := by
  intro value hvalue
  rcases List.mem_cons.1 hvalue with rfl | hvalue
  · exact ⟨_, rfl⟩
  · rw [List.mem_singleton.1 hvalue]
    exact ⟨_, rfl⟩

/-- A reaction to a view whose outputs keep the promise, or are yet to be settled, keeps it. -/
theorem Behavior.admitted_of_react {b : Behavior} {r : Reaction Behavior}
    (hreact : b.react v = .ok r) (h : v.Promising b.outputKind)
    (hlength : v.ports.outputs.length = b.outputCount) : r.Admitted b.outputKind := by
  cases b with
  | operation o =>
    obtain ⟨value, hvalue, rfl⟩ := exists_of_map_eq_ok hreact
    exact Reaction.admitted_out (Operation.admits_output hvalue)
  | scale s =>
    simp only [react] at hreact
    split at hreact <;> cases hreact
    · next value hvalue =>
      obtain ⟨x, -, rfl⟩ := Option.map_eq_some_iff.1 hvalue
      exact Reaction.admitted_out (.inr ⟨_, rfl⟩)
    · exact h.keep (.inl rfl)
  | inputBridge =>
    cases hreact
    exact h.keep (.inl rfl)
  | const | outputBridge | sceneTrigger => exact fun _ _ => trivial
  | _ =>
    -- the output is a new level or number, or what the kind of node settles
    cases hreact
    first
      | exact Reaction.admitted_out ⟨_, rfl⟩
      | exact EdgeDetector.admitted_react _ h hlength
      | exact DelayOn.admitted_react _ h hlength
      | exact DelayOff.admitted_react _ h hlength
      | exact Pulse.admitted_react _ h hlength
      | exact Staircase.admitted_react _ h hlength
      | exact ImpulseCounter.admitted_react _ v

/-- Only operations fail, and they may show `null`. -/
theorem Behavior.keep_of_error {b : Behavior} {e : EvalError} (hreact : b.react v = .error e)
    (h : v.Promising b.outputKind) : ∀ value ∈ v.ports.outputs, b.outputKind.Admits value := by
  cases b with
  | operation => exact h.keep (.inl rfl)
  | scale =>
    simp only [react] at hreact
    split at hreact <;> cases hreact
  | _ => cases hreact

end Reactions

/-! ### The life of a node -/

namespace Node

variable {n₀ n n' : Node} {eps : List Episode} {ep : Episode}

/-- All outputs of the node are of the kind that its behaviour promises. -/
def Admits (n : Node) : Prop :=
  ∀ value ∈ n.ports.outputs, n.behavior.outputKind.Admits value

theorem outputKind_of_parameters_eq {b b' : Behavior} (h : b'.parameters = b.parameters) :
    b'.outputKind = b.outputKind := by
  rw [← Behavior.outputKind_parameters, h, Behavior.outputKind_parameters]

/-- An evaluation leaves outputs of the kind. -/
theorem Evaluates.admits {trigger : Trigger} {time : Nat} {reading : Reading}
    {commands : List Command} (h : n.Evaluates trigger time reading commands n') (hfits : n.Fits)
    (hn : (n.view trigger reading).Promising n.behavior.outputKind) : n'.Admits := by
  cases h with
  | failed hreact => exact Behavior.keep_of_error hreact hn
  | @reacted r timers hreact =>
    have hkind : (n.after r timers).behavior.outputKind = n.behavior.outputKind :=
      outputKind_of_parameters_eq (Behavior.kept_of_react hreact).parameters_eq
    rw [Admits, hkind]
    exact Behavior.admitted_of_react hreact hn hfits.outputs

/-- A node that has just been built shows nothing but `null`. -/
theorem Fresh.eq_null (h : n.Fresh) {value : Value} (hvalue : value ∈ n.ports.outputs) :
    value = .null := by
  rw [h.ports] at hvalue
  obtain ⟨_, -, rfl⟩ := List.mem_map.1 hvalue
  rfl

/-- An input bridge may show `null`. -/
theorem Fresh.admits_of_inputBridge? (h : n.Fresh) {b : InputBridge}
    (hbridge : n.behavior.inputBridge? = some b) : n.Admits := by
  intro value hvalue
  rw [h.eq_null hvalue]
  cases hbehavior : n.behavior with
  | inputBridge => exact .inl rfl
  | _ =>
    rw [hbehavior] at hbridge
    cases hbridge

/-- An input bridge shows what its cast gives. -/
theorem Admits.showing (h : n.Admits) {b : InputBridge} (hbridge : n.behavior.inputBridge? = some b)
    (value : Value) : (n.showing (b.cast.apply value)).Admits := by
  intro shown hshown
  rcases List.mem_or_eq_of_mem_set hshown with hold | rfl
  · exact h shown hold
  · show n.behavior.outputKind.Admits _
    cases hbehavior : n.behavior with
    | inputBridge b' =>
      rw [hbehavior] at hbridge
      cases hbridge
      exact b.cast.admits_apply value
    | _ =>
      rw [hbehavior] at hbridge
      cases hbridge

/-- After an episode a node keeps its promise if it has kept it before, and also if it is new. -/
theorem Undergoes.admits (h : n.Undergoes ep n') (hfits : n.Fits) (henabled : n.enabled = true)
    (hn : n.Admits ∨ n.Fresh) : n'.Admits := by
  -- an evaluation on the inputs settles the outputs of a new node
  have hinputs : ∀ reading, (n.view .inputs reading).Promising n.behavior.outputKind := by
    intro reading value hvalue
    rcases hn with hadmits | hfresh
    · exact .inl (hadmits value hvalue)
    · exact .inr ⟨hfresh.eq_null hvalue, rfl⟩
  cases h with
  | stored hdisabled | dropped hdisabled => cases henabled.symm.trans hdisabled
  | @delivered _ reading _ _ _ _ _ _ hevaluates =>
    exact hevaluates.admits ⟨by simpa [receive, Ports.setInputAt] using hfits.inputs, hfits.outputs⟩
      (hinputs reading)
  | primed _ _ hevaluates => exact hevaluates.admits hfits (hinputs _)
  | fired _ _ htimers hevaluates =>
    rcases hn with hadmits | hfresh
    · exact hevaluates.admits ⟨hfits.inputs, hfits.outputs⟩ fun value hvalue =>
        .inl (hadmits value hvalue)
    · -- a new node has no timer that could fire
      rw [hfresh.timers] at htimers
      cases (List.nil_perm.1 htimers)
  | received _ hbridge =>
    rcases hn with hadmits | hfresh
    · exact hadmits.showing hbridge _
    · exact (hfresh.admits_of_inputBridge? hbridge).showing hbridge _

/-- A node fits its ports all its life. -/
theorem Lives.fits (h : n₀.Lives eps n) (hfits : n₀.Fits) : n.Fits := by
  have hsteps := h.steps
  clear h
  induction hsteps with
  | refl => exact hfits
  | tail _ hstep ih => exact hstep.fits ih

/-- An enabled node keeps its promise as soon as something has happened to it, and an input bridge
from the start. -/
theorem Lives.admits (h : n₀.Lives eps n) (hfresh : n₀.Fresh) (henabled : n₀.enabled = true)
    (hne : n₀.behavior.inputBridge? = none → eps ≠ []) : n.Admits := by
  have hlife : n.Admits ∨ n.Fresh ∧ eps = [] := by
    clear hne
    induction h with
    | nil => exact .inr ⟨hfresh, rfl⟩
    | snoc hlives hundergoes ih =>
      exact .inl (hundergoes.admits (hlives.fits hfresh.fits) (hlives.enabled_eq.trans henabled)
        (ih.imp_right And.left))
  rcases hlife with hadmits | ⟨hnew, rfl⟩
  · exact hadmits
  · cases hbridge : n₀.behavior.inputBridge? with
    | none => exact absurd rfl (hne hbridge)
    | some b =>
      exact hnew.admits_of_inputBridge? (h.inputBridge?_eq.trans hbridge)

end Node

end SignalGraph
