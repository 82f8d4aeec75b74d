import Mathlib.Data.List.DropRight
import Mathlib.Data.Nat.Bits
import SignalGraph.Proofs.Node.Solitary

/-!
# Latches

What a latch shows follows from the levels that its inputs have had, each value that is stored being
one change of them. A toggle shows whether the number of edges of `in` since `reset` was last true
is odd, starting from its first state if `reset` has never been true (`toggled`), and a set/reset
latch shows what the last moment says at which one of its inputs was true (`held`). Evaluating it
once more makes no difference, and evaluating it on a change does what the history says
(`Toggle.Follows.step`, `SetReset.Follows.step`).
-/

namespace SignalGraph

/-! ### Changes of levels -/

/-- A value is stored: the levels of all ports before and after. -/
structure LevelChange where
  before : Nat → Bool
  after : Nat → Bool

/-- What values that are stored change, given the levels before. -/
def levelChangesFrom (level : Nat → Bool) : List (Nat × Value) → List LevelChange
  | [] => []
  | (port, value) :: rest =>
    let next := Function.update level port value.truth
    ⟨level, next⟩ :: levelChangesFrom next rest

/-- What values that are stored since the load change; all levels are false before. -/
def levelChanges (stored : List (Nat × Value)) : List LevelChange :=
  levelChangesFrom (fun _ => false) stored

section Changes

variable (stored : List (Nat × Value)) (port : Nat) (value : Value)

theorem levelChangesFrom_append (level : Nat → Bool) (later : List (Nat × Value)) :
    levelChangesFrom level (stored ++ later) = levelChangesFrom level stored ++
      levelChangesFrom
        (stored.foldl (fun level entry => Function.update level entry.1 entry.2.truth) level)
        later := by
  induction stored generalizing level with
  | nil => rfl
  | cons entry rest ih =>
    rw [List.cons_append, levelChangesFrom, levelChangesFrom, ih, List.foldl_cons]
    rfl

theorem levelChanges_append (later : List (Nat × Value)) :
    levelChanges (stored ++ later) =
      levelChanges stored ++ levelChangesFrom (levels stored) later :=
  levelChangesFrom_append stored _ later

theorem levelChanges_concat :
    levelChanges (stored ++ [(port, value)]) =
      levelChanges stored ++ [⟨levels stored, levels (stored ++ [(port, value)])⟩] := by
  rw [levelChanges_append, levels_concat]
  rfl

end Changes

/-! ### Toggles -/

/-- The number of edges of port 0, `in`, among changes. -/
def edgeCount (kind : EdgeKind) (changes : List LevelChange) : Nat :=
  changes.countP fun c => kind.isEdge (c.before 0) (c.after 0)

/-- The changes since port 1, `reset`, was last true. -/
def sinceReset (changes : List LevelChange) : List LevelChange :=
  changes.rtakeWhile fun c => !c.after 1

/-- Port 1, `reset`, has been true. -/
def wasReset (changes : List LevelChange) : Bool :=
  changes.any fun c => c.after 1

@[simp] theorem edgeCount_nil (kind : EdgeKind) : edgeCount kind [] = 0 :=
  rfl

theorem sinceReset_concat (changes : List LevelChange) (c : LevelChange) :
    sinceReset (changes ++ [c]) = if c.after 1 then [] else sinceReset changes ++ [c] := by
  rw [sinceReset, List.rtakeWhile_concat, ← sinceReset]
  cases c.after 1 <;> rfl

theorem wasReset_concat (changes : List LevelChange) (c : LevelChange) :
    wasReset (changes ++ [c]) = (wasReset changes || c.after 1) := by
  simp [wasReset]

/-- What a toggle of this kind and with this first state shows when these values have been
stored. -/
def toggled (kind : EdgeKind) (initial : Bool) (stored : List (Nat × Value)) : Bool :=
  let changes := levelChanges stored
  (if wasReset changes then false else initial) ^^ (edgeCount kind (sinceReset changes)).bodd

section Toggled

variable {kind : EdgeKind} {initial : Bool} {stored later : List (Nat × Value)} {port : Nat}
  {value : Value}

theorem bodd_edgeCount_concat (changes : List LevelChange) (c : LevelChange) :
    (edgeCount kind (changes ++ [c])).bodd =
      ((edgeCount kind changes).bodd ^^ kind.isEdge (c.before 0) (c.after 0)) := by
  rw [edgeCount, List.countP_append, List.countP_singleton, Nat.bodd_add, ← edgeCount]
  cases kind.isEdge (c.before 0) (c.after 0) <;> rfl

/-- A change that leaves `reset` true starts anew, and any other one counts if it is an edge. -/
theorem toggled_concat : toggled kind initial (stored ++ [(port, value)]) =
    if levels (stored ++ [(port, value)]) 1 then false
    else toggled kind initial stored ^^
      kind.isEdge (levels stored 0) (levels (stored ++ [(port, value)]) 0) := by
  obtain ⟨c, hbefore, hafter, hchanges⟩ : ∃ c : LevelChange, c.before = levels stored ∧
      c.after = levels (stored ++ [(port, value)]) ∧
      levelChanges (stored ++ [(port, value)]) = levelChanges stored ++ [c] :=
    ⟨_, rfl, rfl, levelChanges_concat stored port value⟩
  rw [toggled, hchanges, wasReset_concat, sinceReset_concat, ← hbefore, ← hafter]
  cases c.after 1 with
  | true => simp
  | false =>
    rw [Bool.or_false, if_neg Bool.false_ne_true, if_neg Bool.false_ne_true, bodd_edgeCount_concat,
      ← Bool.xor_assoc]
    rfl

/-- While `reset` is true, a toggle shows false. -/
theorem toggled_of_reset (h : levels stored 1 = true) : toggled kind initial stored = false := by
  induction stored using List.reverseRecOn with
  | nil => cases h
  | append_singleton stored entry => rw [toggled_concat, if_pos h]

/-- Once `reset` has become false again, the edges that come from then on count, from the level that
`in` has then. Those that came while `reset` was true do not. -/
theorem toggled_append_of_reset (hreset : levels stored 1 = true)
    (hlater : ∀ c ∈ levelChangesFrom (levels stored) later, c.after 1 = false) :
    toggled kind initial (stored ++ later) =
      (edgeCount kind (levelChangesFrom (levels stored) later)).bodd := by
  induction later using List.reverseRecOn with
  | nil =>
    rw [List.append_nil, toggled_of_reset hreset, levelChangesFrom, edgeCount_nil, Nat.bodd_zero]
  | append_singleton later entry ih =>
    obtain ⟨port, value⟩ := entry
    have hchanges : levelChangesFrom (levels stored) (later ++ [(port, value)]) =
        levelChangesFrom (levels stored) later ++
          [⟨levels (stored ++ later), levels (stored ++ later ++ [(port, value)])⟩] := by
      rw [levelChangesFrom_append, levels_concat, levels, levels, List.foldl_append]
      rfl
    rw [hchanges] at hlater ⊢
    have hlow : levels (stored ++ later ++ [(port, value)]) 1 = false :=
      hlater _ (List.mem_append_right _ (List.mem_singleton_self _))
    rw [← List.append_assoc, toggled_concat, hlow, bodd_edgeCount_concat,
      ih fun c hc => hlater c (List.mem_append_left _ hc)]
    rfl

end Toggled

/-- The toggle has seen these values at its ports, and its state is what they make of the first
one. -/
structure Toggle.Follows (t : Toggle) (kind : EdgeKind) (initial : Bool)
    (stored : List (Nat × Value)) : Prop where
  kind_eq : t.kind = kind
  level : t.level = levels stored 0
  state : t.state = toggled kind initial stored

/-- An evaluation follows the value that has just been stored, if there is one. -/
theorem Toggle.Follows.step {t : Toggle} {kind : EdgeKind} {initial : Bool}
    {stored : List (Nat × Value)} (h : t.Follows kind initial stored)
    (more : Option (Nat × Value)) :
    (t.step (levels (stored ++ more.toList) 0) (levels (stored ++ more.toList) 1)).Follows kind
      initial (stored ++ more.toList) := by
  refine ⟨h.kind_eq, rfl, ?_⟩
  rw [Toggle.step, h.kind_eq, h.level, h.state]
  cases more with
  | none =>
    rw [Option.toList_none, List.append_nil, kind.not_isEdge_self]
    dsimp only
    cases hreset : levels stored 1 with
    | false => rfl
    | true => exact (toggled_of_reset hreset).symm
  | some entry =>
    rw [Option.toList_some, toggled_concat]
    dsimp only
    cases kind.isEdge (levels stored 0) (levels (stored ++ [entry]) 0) <;> simp

/-! ### Set/reset latches -/

/-- What a set/reset latch shows when these values have been stored: port 0 is `s` and port 1 is
`r`. -/
def held (setWins : Bool) (stored : List (Nat × Value)) : Bool :=
  match (levelChanges stored).reverse.find? fun c => c.after 0 || c.after 1 with
  | some c => c.after 0 && (!c.after 1 || setWins)
  | none => false

section Held

variable {setWins : Bool} {stored : List (Nat × Value)} {port : Nat} {value : Value}

theorem held_concat : held setWins (stored ++ [(port, value)]) =
    if levels (stored ++ [(port, value)]) 0 || levels (stored ++ [(port, value)]) 1 then
      levels (stored ++ [(port, value)]) 0 && (!levels (stored ++ [(port, value)]) 1 || setWins)
    else held setWins stored := by
  rw [held, levelChanges_concat, List.reverse_concat, List.find?_cons]
  cases levels (stored ++ [(port, value)]) 0 || levels (stored ++ [(port, value)]) 1 <;> rfl

/-- While an input is true, the latch shows what the present levels say. -/
theorem held_of_level (h : (levels stored 0 || levels stored 1) = true) :
    held setWins stored = (levels stored 0 && (!levels stored 1 || setWins)) := by
  induction stored using List.reverseRecOn with
  | nil => cases h
  | append_singleton stored entry => rw [held_concat, if_pos h]

end Held

/-- The latch has seen these values at its ports, and its state is what they say. -/
structure SetReset.Follows (l : SetReset) (setWins : Bool) (stored : List (Nat × Value)) :
    Prop where
  setWins_eq : l.setWins = setWins
  state : l.state = held setWins stored

/-- An evaluation follows the value that has just been stored, if there is one. -/
theorem SetReset.Follows.step {l : SetReset} {setWins : Bool} {stored : List (Nat × Value)}
    (h : l.Follows setWins stored) (more : Option (Nat × Value)) :
    (l.step (levels (stored ++ more.toList) 0) (levels (stored ++ more.toList) 1)).Follows setWins
      (stored ++ more.toList) := by
  refine ⟨h.setWins_eq, ?_⟩
  unfold SetReset.step
  rw [h.setWins_eq, h.state]
  dsimp only
  -- the state is kept only if both inputs are false, and then nothing new has been said
  have hkept (hset : levels (stored ++ more.toList) 0 = false)
      (hreset : levels (stored ++ more.toList) 1 = false) :
      held setWins stored = held setWins (stored ++ more.toList) := by
    cases more with
    | none => rw [Option.toList_none, List.append_nil]
    | some entry =>
      rw [Option.toList_some] at hset hreset ⊢
      rw [held_concat, hset, hreset]
      rfl
  cases hset : levels (stored ++ more.toList) 0 <;> cases hreset : levels (stored ++ more.toList) 1
  case false.false => exact hkept hset hreset
  all_goals
    have hlevel :
        (levels (stored ++ more.toList) 0 || levels (stored ++ more.toList) 1) = true := by
      rw [hset, hreset]
      rfl
    rw [held_of_level hlevel, hset, hreset]
    cases setWins <;> rfl

/-- A latch with this priority prefers to be set while both inputs are true. -/
def SetReset.prefersSet (priority : Option String) : Bool :=
  priority.any fun name => Text.lower name == "s" || Text.lower name == "set"

/-- A new latch is reset, and prefers what its priority names. -/
theorem SetReset.of_ofParams {p : Params} {l : SetReset} (h : ofParams p = .ok l) :
    l.state = false ∧ ∃ priority, p.text? "priority" = .ok priority ∧
      l.setWins = prefersSet priority := by
  obtain ⟨priority, hpriority, h⟩ := exists_of_bind_eq_ok h
  suffices hnew : l.state = false ∧ l.setWins = prefersSet priority from
    ⟨hnew.1, priority, hpriority, hnew.2⟩
  cases priority with
  | none =>
    cases h
    exact ⟨rfl, rfl⟩
  | some name =>
    dsimp only at h
    split at h
    case h_5 => cases h
    all_goals
      next hname =>
        cases h
        exact ⟨rfl, by simp [prefersSet, hname]⟩

/-! ### Latches in the life of a node -/

namespace Behavior

/-- The state of a latch. -/
def latched? : Behavior → Option Bool
  | .toggle t => some t.state
  | .setReset l => some l.state
  | _ => none

theorem isSome_latched?_parameters (b : Behavior) :
    b.parameters.latched?.isSome = b.latched?.isSome := by
  cases b <;> rfl

theorem inputBridge?_of_latched? {b : Behavior} (h : b.latched?.isSome = true) :
    b.inputBridge? = none := by
  cases b with
  | inputBridge => cases h
  | _ => rfl

/-- A latch shows its state. -/
theorem exists_react_of_latched? {b : Behavior} (h : b.latched?.isSome = true) (v : View) :
    ∃ r out, b.react v = .ok r ∧ r.state.latched? = some out ∧ r.outputs = [.bool out] := by
  cases b with
  | toggle t => exact ⟨_, _, rfl, rfl, rfl⟩
  | setReset l => exact ⟨_, _, rfl, rfl, rfl⟩
  | _ => cases h

end Behavior

namespace Node

variable {n₀ n n' : Node} {eps : List Episode} {p : Params} {trigger : Trigger} {time : Nat}
  {reading : Reading} {commands : List Command}

theorem Evaluates.toggle {t : Toggle} (ht : n.behavior = .toggle t)
    (h : n.Evaluates trigger time reading commands n') :
    n'.behavior = .toggle (t.step (n'.level 0) (n'.level 1)) := by
  have hreact : n.behavior.react (n.view trigger reading) =
      .ok ((t.react (n.view trigger reading)).map .toggle) := by
    rw [ht]
    rfl
  obtain ⟨hbehavior, -, -⟩ := h.of_react hreact
  rw [hbehavior, h.level_eq, h.level_eq]
  rfl

theorem Evaluates.setReset {l : SetReset} (hl : n.behavior = .setReset l)
    (h : n.Evaluates trigger time reading commands n') :
    n'.behavior = .setReset (l.step (n'.level 0) (n'.level 1)) := by
  have hreact : n.behavior.react (n.view trigger reading) =
      .ok ((l.react (n.view trigger reading)).map .setReset) := by
    rw [hl]
    rfl
  obtain ⟨hbehavior, -, -⟩ := h.of_react hreact
  rw [hbehavior, h.level_eq, h.level_eq]
  rfl

theorem Evaluates.outputs_of_latched? (hlatch : n.behavior.latched?.isSome = true)
    (h : n.Evaluates trigger time reading commands n') :
    ∃ out, n'.behavior.latched? = some out ∧ n'.ports.outputs = [.bool out] := by
  obtain ⟨r, out, hreact, hstate, houtputs⟩ :=
    Behavior.exists_react_of_latched? hlatch (n.view trigger reading)
  obtain ⟨hbehavior, hshown, -⟩ := h.of_react hreact
  exact ⟨out, by rw [hbehavior, hstate], hshown.trans houtputs⟩

/-- An enabled latch shows its state as soon as something has happened to it. -/
theorem Lives.outputs_of_latched? (h : n₀.Lives eps n) (henabled : n₀.enabled = true) {out : Bool}
    (hout : n.behavior.latched? = some out) (hne : eps ≠ []) : n.ports.outputs = [.bool out] := by
  obtain ⟨m, trigger, time, reading, commands, hparameters, hevaluates⟩ :=
    h.exists_evaluates henabled (Behavior.inputBridge?_of_latched? (by rw [hout]; rfl)) hne
  have hm : m.behavior.latched?.isSome = true := by
    rw [← Behavior.isSome_latched?_parameters, hparameters, Behavior.isSome_latched?_parameters,
      hout]
    rfl
  obtain ⟨out', hout', houtputs⟩ := hevaluates.outputs_of_latched? hm
  obtain rfl := Option.some.inj (hout'.symm.trans hout)
  exact houtputs

/-- A node that was a toggle when it was new has followed what was stored since. -/
theorem Lives.toggle (h : n₀.Lives eps n) (hfresh : n₀.Fresh) (henabled : n₀.enabled = true)
    (htype : n₀.ports.type = .toggle) (hp : Behavior.ofParams .toggle p = .ok n₀.behavior) :
    ∃ kind initial, EdgeKind.ofParams p .rising = .ok kind ∧
      p.flagOr "initial" false = .ok initial ∧
      ∃ t, n.behavior = .toggle t ∧ t.Follows kind initial (stores eps) := by
  obtain ⟨t₀, hbuilt, ht₀⟩ := exists_of_map_eq_ok hp
  obtain ⟨kind, hkind, hbuilt⟩ := exists_of_bind_eq_ok hbuilt
  obtain ⟨initial, hinitial, hbuilt⟩ := exists_of_bind_eq_ok hbuilt
  cases hbuilt
  have hports : n₀.ports.inputs.length = 2 := by
    rw [hfresh.fits.inputs, htype]
    rfl
  refine ⟨kind, initial, hkind, hinitial, ?_⟩
  refine h.follow (P := fun b stored => ∃ t, b = .toggle t ∧ t.Follows kind initial stored) hfresh
    henabled ⟨_, ht₀.symm, ⟨rfl, rfl, ?_⟩⟩ ?_ ?_
  · simp [toggled, levelChanges, levelChangesFrom, wasReset, sinceReset]
  · rintro b stored ⟨t, rfl, -⟩
    rfl
  · rintro m n' trigger time reading commands stored more ⟨t, ht, hfollows⟩ hm hlevels
    refine ⟨_, hm.toggle ht, ?_⟩
    rw [level, level, hlevels 0 (by omega), hlevels 1 (by omega)]
    exact hfollows.step more

/-- A node that was a set/reset latch when it was new has followed what was stored since. -/
theorem Lives.setReset (h : n₀.Lives eps n) (hfresh : n₀.Fresh) (henabled : n₀.enabled = true)
    (htype : n₀.ports.type = .rs) (hp : Behavior.ofParams .rs p = .ok n₀.behavior) :
    ∃ priority, p.text? "priority" = .ok priority ∧
      ∃ l, n.behavior = .setReset l ∧ l.Follows (SetReset.prefersSet priority) (stores eps) := by
  obtain ⟨l₀, hbuilt, hl₀⟩ := exists_of_map_eq_ok hp
  obtain ⟨hnew, priority, hpriority, hwins⟩ := SetReset.of_ofParams hbuilt
  have hports : n₀.ports.inputs.length = 2 := by
    rw [hfresh.fits.inputs, htype]
    rfl
  refine ⟨priority, hpriority, ?_⟩
  refine h.follow (P := fun b stored =>
    ∃ l, b = .setReset l ∧ l.Follows (SetReset.prefersSet priority) stored) hfresh henabled
    ⟨l₀, hl₀.symm, ⟨hwins, hnew⟩⟩ ?_ ?_
  · rintro b stored ⟨l, rfl, -⟩
    rfl
  · rintro m n' trigger time reading commands stored more ⟨l, hl, hfollows⟩ hm hlevels
    refine ⟨_, hm.setReset hl, ?_⟩
    rw [level, level, hlevels 0 (by omega), hlevels 1 (by omega)]
    exact hfollows.step more

end Node

end SignalGraph
