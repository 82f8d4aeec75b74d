import Mathlib.Logic.Function.Basic
import SignalGraph.Proofs.Decimal.Order
import SignalGraph.Proofs.Graph.Built
import SignalGraph.Proofs.Node.History
import SignalGraph.Proofs.Node.Kind

/-!
# Counting edges

The levels of a node's input ports follow the values that are stored there. The rises among them are
all that counts: an impulse counter shows the number of rises of `in` since the last rise of `reset`
(`Node.Lives.impulseCounter`), and a counter what its rises make of the first count one after the
other (`Node.Lives.counter`), always within its bounds (`Counter.le_bounded`, `Counter.bounded_le`).
-/

namespace SignalGraph

open Decimal

/-! ### Rises -/

/-- The level of each port after values have been stored; every port starts out as `null`. -/
def levels (stored : List (Nat × Value)) : Nat → Bool :=
  stored.foldl (fun level entry => Function.update level entry.1 entry.2.truth) fun _ => false

/-- The ports that rise as values are stored, given the levels before. -/
def risesFrom (level : Nat → Bool) : List (Nat × Value) → List Nat
  | [] => []
  | (port, value) :: rest =>
    let later := risesFrom (Function.update level port value.truth) rest
    if isRise (level port) value.truth then port :: later else later

/-- The ports that rise as values are stored, in order. -/
def rises (stored : List (Nat × Value)) : List Nat :=
  risesFrom (fun _ => false) stored

section Rises

variable (stored : List (Nat × Value)) (port : Nat) (value : Value)

theorem levels_concat :
    levels (stored ++ [(port, value)]) = Function.update (levels stored) port value.truth := by
  rw [levels, List.foldl_concat, ← levels]

theorem risesFrom_concat (level : Nat → Bool) :
    risesFrom level (stored ++ [(port, value)]) =
      risesFrom level stored ++
        if isRise (stored.foldl (fun level entry => Function.update level entry.1 entry.2.truth)
          level port) value.truth then [port] else [] := by
  induction stored generalizing level with
  | nil => rfl
  | cons entry rest ih =>
    obtain ⟨first, firstValue⟩ := entry
    rw [List.cons_append, risesFrom, risesFrom, ih, List.foldl_cons]
    dsimp only
    by_cases hfirst : isRise (level first) firstValue.truth = true
    · rw [if_pos hfirst, if_pos hfirst, List.cons_append]
    · rw [if_neg hfirst, if_neg hfirst]

/-- A value that is stored is a rise or none. -/
theorem rises_concat :
    rises (stored ++ [(port, value)]) =
      rises stored ++ if isRise (levels stored port) value.truth then [port] else [] :=
  risesFrom_concat stored port value _

/-- A level rises only at the port where the value is stored. -/
theorem isRise_levels_concat (other : Nat) :
    isRise (levels stored other) (levels (stored ++ [(port, value)]) other) =
      (port == other && isRise (levels stored port) value.truth) := by
  rw [levels_concat]
  by_cases hother : port = other
  · subst hother
    simp
  · have hkept : Function.update (levels stored) port value.truth other = levels stored other :=
      Function.update_of_ne (Ne.symm hother) _ _
    simp [hkept, hother, isRise, EdgeKind.isEdge]

end Rises

theorem not_isRise_self (level : Bool) : isRise level level = false := by
  cases level <;> rfl

/-! ### Impulse counters -/

/-- The number of rises of port 0, `in`, since the last rise of port 1, `reset`. -/
def impulses (rises : List Nat) : Nat :=
  (rises.reverse.takeWhile (· ≠ 1)).count 0

theorem impulses_concat (rises : List Nat) (port : Nat) :
    impulses (rises ++ [port]) =
      if port = 1 then 0 else if port = 0 then impulses rises + 1 else impulses rises := by
  rw [impulses, List.reverse_concat, List.takeWhile_cons]
  by_cases hreset : port = 1
  · simp [hreset]
  · by_cases hin : port = 0 <;> simp [hreset, hin, impulses]

/-- The counter has seen these values at its ports and has counted them. -/
structure ImpulseCounter.Counts (c : ImpulseCounter) (stored : List (Nat × Value)) : Prop where
  level : c.level = levels stored 0
  resetLevel : c.resetLevel = levels stored 1
  count : c.count = impulses (rises stored)

namespace ImpulseCounter.Counts

variable {c : ImpulseCounter} {stored : List (Nat × Value)}

/-- An evaluation counts the rise of the value that has just been stored, if there is one. -/
theorem step (h : c.Counts stored) (more : Option (Nat × Value)) :
    (c.step (levels (stored ++ more.toList) 0) (levels (stored ++ more.toList) 1)).Counts
      (stored ++ more.toList) := by
  refine ⟨rfl, rfl, ?_⟩
  cases more with
  | none =>
    simp only [ImpulseCounter.step, Option.toList_none, List.append_nil, h.level, h.resetLevel,
      not_isRise_self]
    exact h.count
  | some entry =>
    obtain ⟨port, value⟩ := entry
    simp only [ImpulseCounter.step, Option.toList_some, h.level, h.resetLevel,
      isRise_levels_concat, rises_concat]
    cases isRise (levels stored port) value.truth with
    | false => simpa using h.count
    | true => simp [impulses_concat, h.count]

end ImpulseCounter.Counts

/-! ### Counters -/

namespace Counter

section Bounds

theorem greater_greater (x l : Float) : greater (greater x l) l = greater x l := by
  rcases greater_eq_or x l with heq | heq
  · rw [heq, heq]
  · rw [heq, greater_self]

theorem lesser_lesser (x h : Float) : lesser (lesser x h) h = lesser x h := by
  rcases lesser_eq_or x h with heq | heq
  · rw [heq, heq]
  · rw [heq, lesser_self]

/-- A number above the lower bound, once lowered to the upper bound, passes both bounds. -/
theorem lesser_greater_lesser {x l : Float} (h : Float) (hx : greater x l = x) :
    lesser (greater (lesser x h) l) h = lesser x h := by
  by_cases hnan : h.isNaN = true
  · have hkept : lesser x h = x := by rw [lesser, if_pos hnan]
    rw [hkept, hx, hkept]
  rcases lesser_eq_or x h with heq | heq
  · rw [heq, hx, heq]
  · rw [heq]
    by_cases hlt : l < h
    · rw [greater_of_lt hlt, lesser_self]
    · -- the lower bound is not below the upper one, which wins
      rcases greater_eq_or h l with hl | hl
      · rw [hl, lesser_self]
      · rw [hl, lesser_of_not_isNaN (Bool.eq_false_iff.2 hnan), if_neg hlt]

/-- A number that has been kept within bounds stays as it is. -/
theorem bounded_bounded (low high : Option Float) (x : Float) :
    bounded low high (bounded low high x) = bounded low high x := by
  cases low with
  | none =>
    cases high with
    | none => rfl
    | some h => exact lesser_lesser x h
  | some l =>
    cases high with
    | none => exact greater_greater x l
    | some h => exact lesser_greater_lesser h (greater_greater x l)

end Bounds

/-- The bounds are numbers, and the lower one is not above the upper one. -/
structure Sound (c : Counter) : Prop where
  low : ∀ l, c.low = some l → l.isNaN = false
  high : ∀ h, c.high = some h → h.isNaN = false
  ordered : ∀ l h, c.low = some l → c.high = some h → l ≤ h

theorem le_bounded {c : Counter} (hc : c.Sound) {l : Float} (hl : c.low = some l) (x : Float) :
    l ≤ bounded c.low c.high x := by
  have hraised : l ≤ greater x l := le_greater (hc.low l hl)
  rw [hl]
  cases hhigh : c.high with
  | none => exact hraised
  | some h =>
    show l ≤ lesser (greater x l) h
    rcases lesser_eq_or (greater x l) h with heq | heq
    · rw [heq]
      exact hraised
    · rw [heq]
      exact hc.ordered l h hl hhigh

theorem bounded_le {c : Counter} (hc : c.Sound) {h : Float} (hh : c.high = some h) (x : Float) :
    bounded c.low c.high x ≤ h := by
  rw [hh]
  exact lesser_le (hc.high h hh)

/-- What a rise of a port makes of a count: port 0 is `up`, port 1 `down` and port 2 `reset`. -/
def counted (c : Counter) (count : Float) : Nat → Float
  | 0 => bounded c.low c.high (count + c.increment)
  | 1 => bounded c.low c.high (count - c.increment)
  | 2 => bounded c.low c.high c.initial
  | _ => count

/-- The count after rises. -/
def total (c : Counter) (rises : List Nat) : Float :=
  rises.foldl c.counted (bounded c.low c.high c.initial)

theorem total_concat (c : Counter) (rises : List Nat) (port : Nat) :
    c.total (rises ++ [port]) = c.counted (c.total rises) port := by
  rw [total, List.foldl_concat, ← total]

theorem bounded_counted {c : Counter} {count : Float}
    (h : bounded c.low c.high count = count) (port : Nat) :
    bounded c.low c.high (c.counted count port) = c.counted count port :=
  match port with
  | 0 | 1 | 2 => bounded_bounded ..
  | _ + 3 => h

/-- Every count is within the bounds. -/
theorem bounded_total (c : Counter) (rises : List Nat) :
    bounded c.low c.high (c.total rises) = c.total rises := by
  induction rises using List.reverseRecOn with
  | nil => exact bounded_bounded ..
  | append_singleton rises port ih =>
    rw [total_concat]
    exact bounded_counted ih port

/-- The counter has seen these values at its ports and has counted them. -/
structure Counts (c : Counter) (stored : List (Nat × Value)) : Prop where
  upLevel : c.upLevel = levels stored 0
  downLevel : c.downLevel = levels stored 1
  resetLevel : c.resetLevel = levels stored 2
  count : c.count = c.total (rises stored)

namespace Counts

variable {c : Counter} {stored : List (Nat × Value)}

/-- An evaluation counts the rise of the value that has just been stored, if there is one. -/
theorem step (h : c.Counts stored) (more : Option (Nat × Value)) :
    (c.step (levels (stored ++ more.toList) 0) (levels (stored ++ more.toList) 1)
      (levels (stored ++ more.toList) 2)).Counts (stored ++ more.toList) := by
  refine ⟨rfl, rfl, rfl, ?_⟩
  show (c.step _ _ _).count = c.total _
  cases more with
  | none =>
    simp only [Counter.step, moved, Option.toList_none, List.append_nil, h.upLevel, h.downLevel,
      h.resetLevel, not_isRise_self, h.count]
    exact bounded_total c _
  | some entry =>
    obtain ⟨port, value⟩ := entry
    simp only [Counter.step, moved, Option.toList_some, h.upLevel, h.downLevel, h.resetLevel,
      h.count, isRise_levels_concat, rises_concat]
    cases isRise (levels stored port) value.truth with
    | false => simpa using bounded_total c (rises stored)
    | true =>
      rw [if_pos rfl, total_concat]
      match port with
      | 0 | 1 | 2 => rfl
      | _ + 3 => exact bounded_total c (rises stored)

end Counts

end Counter

/-! ### Counting nodes -/

namespace Params

theorem isNaN_of_number? {p : Params} {key : String} {x : Float}
    (h : p.number? key = .ok (some x)) : x.isNaN = false := by
  unfold number? at h
  split at h
  · cases h
  · cases h
    exact isNaN_floatOfInt _
  · split at h
    · next hfinite =>
      cases h
      exact isNaN_of_isFinite hfinite
    · cases h
  · split at h
    · next hparse =>
      cases h
      exact isNaN_of_isFinite (Option.filter_eq_some_iff.1 hparse).2
    · cases h
  · cases h

end Params

/-- A new impulse counter has counted nothing. -/
theorem ImpulseCounter.counts_of_ofParams {p : Params} {c : ImpulseCounter}
    (h : ofParams p = .ok c) : c.Counts [] := by
  obtain ⟨factor, -, h⟩ := exists_of_bind_eq_ok h
  obtain ⟨decimals, -, h⟩ := exists_of_bind_eq_ok h
  cases h
  exact ⟨rfl, rfl, rfl⟩

/-- A new counter has proper bounds and has counted nothing. -/
theorem Counter.sound_of_ofParams {p : Params} {c : Counter} (h : ofParams p = .ok c) :
    c.Sound ∧ c.Counts [] := by
  obtain ⟨low, hlow, h⟩ := exists_of_bind_eq_ok h
  obtain ⟨high, hhigh, h⟩ := exists_of_bind_eq_ok h
  have hnumber : ∀ {key : String} {bound : Option Float}, p.number? key = .ok bound →
      ∀ x, bound = some x → x.isNaN = false := by
    rintro key bound hkey x rfl
    exact Params.isNaN_of_number? hkey
  -- bounds in the wrong order are refused
  have hordered : (do
      let initial ← p.numberOr "initial" 0.0
      return { increment := ← p.numberOr "step" 1.0, low := low, high := high, initial := initial
               count := bounded low high initial }) = Except.ok c ∧
      ∀ l h, low = some l → high = some h → ¬ h < l := by
    dsimp only at h
    split at h
    · next l' h' =>
      split at h
      · obtain ⟨u, hinvalid, -⟩ := exists_of_bind_eq_ok h
        cases hinvalid
      · next hle =>
        refine ⟨h, ?_⟩
        rintro l h ⟨⟩ ⟨⟩
        exact hle
    · next hmissing => exact ⟨h, fun l h hl hh => (hmissing l h hl hh).elim⟩
  obtain ⟨hbuilt, hordered⟩ := hordered
  obtain ⟨initial, -, hbuilt⟩ := exists_of_bind_eq_ok hbuilt
  obtain ⟨increment, -, hbuilt⟩ := exists_of_bind_eq_ok hbuilt
  cases hbuilt
  refine ⟨⟨hnumber hlow, hnumber hhigh, ?_⟩, ⟨rfl, rfl, rfl, rfl⟩⟩
  intro l h hl hh
  exact le_of_not_lt (hnumber hlow l hl) (hnumber hhigh h hh) (hordered l h hl hh)

namespace Node

variable {n₀ n n' : Node} {eps : List Episode}

/-- The level of an input port is that of the values stored there. -/
theorem Lives.levels_eq (h : n₀.Lives eps n) (hfresh : n₀.Fresh) {port : Nat}
    (hport : port < n₀.ports.inputs.length) :
    (n.ports.inputAt port).truth = levels (stores eps) port := by
  induction h with
  | nil =>
    rw [hfresh.inputAt_eq]
    rfl
  | @snoc eps n n' ep hlives hundergoes ih =>
    have hlength := hlives.length_inputs
    rw [stores_concat, Ports.inputAt, hundergoes.inputs_eq]
    cases ep.stored? with
    | none =>
      rw [Option.toList_none, List.append_nil]
      exact ih
    | some entry =>
      rw [Option.toList_some, levels_concat, Option.elim_some, List.getD_eq_getElem?_getD]
      by_cases hentry : entry.1 = port
      · rw [← hentry, List.getElem?_set_self (by omega), Function.update_self]
        rfl
      · rw [List.getElem?_set_ne hentry, Function.update_of_ne (Ne.symm hentry),
          ← List.getD_eq_getElem?_getD]
        exact ih

section Evaluation

variable {trigger : Trigger} {time : Nat} {reading : Reading} {commands : List Command}

/-- An impulse counter is evaluated on the levels of its inputs and shows what it has counted. -/
theorem Evaluates.impulseCounter {c : ImpulseCounter} (hc : n.behavior = .impulseCounter c)
    (h : n.Evaluates trigger time reading commands n') : ∃ c',
    c' = c.step (n'.ports.inputAt 0).truth (n'.ports.inputAt 1).truth ∧
      n'.behavior = .impulseCounter c' ∧ n'.ports.outputs = c'.outputs := by
  cases h with
  | failed hreact =>
    rw [hc] at hreact
    cases hreact
  | reacted hreact =>
    rw [hc] at hreact
    cases hreact
    exact ⟨_, rfl, rfl, rfl⟩

theorem Evaluates.counter {c : Counter} (hc : n.behavior = .counter c)
    (h : n.Evaluates trigger time reading commands n') : ∃ c',
    c' = c.step (n'.ports.inputAt 0).truth (n'.ports.inputAt 1).truth
        (n'.ports.inputAt 2).truth ∧
      n'.behavior = .counter c' ∧ n'.ports.outputs = [.num c'.count] := by
  cases h with
  | failed hreact =>
    rw [hc] at hreact
    cases hreact
  | reacted hreact =>
    rw [hc] at hreact
    cases hreact
    exact ⟨_, rfl, rfl, rfl⟩

end Evaluation

/-- What every evaluation keeps, given the values stored so far and the levels they leave, holds of
an enabled node throughout. -/
theorem Lives.follow {P : Behavior → List (Nat × Value) → Prop} (h : n₀.Lives eps n)
    (hfresh : n₀.Fresh) (henabled : n₀.enabled = true) (hnew : P n₀.behavior [])
    (hbridge : ∀ {b stored}, P b stored → b.inputBridge? = none)
    (hevaluates : ∀ {m n' : Node} {trigger time reading commands stored}
      (more : Option (Nat × Value)), P m.behavior stored →
      m.Evaluates trigger time reading commands n' →
      (∀ port < n₀.ports.inputs.length,
        (n'.ports.inputAt port).truth = levels (stored ++ more.toList) port) →
      P n'.behavior (stored ++ more.toList)) :
    P n.behavior (stores eps) := by
  induction h with
  | nil => exact hnew
  | @snoc eps n n' ep hlives hundergoes ih =>
    have hn : n.enabled = true := hlives.enabled_eq.trans henabled
    obtain ⟨m, trigger, hm, hm'⟩ := hundergoes.exists_evaluates hn (hbridge ih)
    have hlevels := fun port (hport : port < n₀.ports.inputs.length) =>
      (hlives.snoc hundergoes).levels_eq hfresh hport
    rw [stores_concat] at hlevels ⊢
    rw [← hm] at ih
    exact hevaluates ep.stored? ih hm' hlevels

/-- A node that was an impulse counter when it was new has counted what was stored since. -/
theorem Lives.impulseCounter (h : n₀.Lives eps n) (hfresh : n₀.Fresh)
    (henabled : n₀.enabled = true) {c₀ : ImpulseCounter}
    (hc₀ : n₀.behavior = .impulseCounter c₀) :
    ∃ c, n.behavior = .impulseCounter c ∧ c.Counts (stores eps) := by
  obtain ⟨p, hp⟩ := hfresh.exists_params
  rw [hc₀] at hp
  obtain ⟨htype, hbuilt⟩ := Behavior.impulseCounter_of_ofParams hp
  have hports : n₀.ports.inputs.length = 2 := by
    rw [hfresh.fits.inputs, htype]
    rfl
  refine h.follow (P := fun b stored => ∃ c, b = .impulseCounter c ∧ c.Counts stored) hfresh
    henabled
    ⟨c₀, hc₀, ImpulseCounter.counts_of_ofParams hbuilt⟩ ?_ ?_
  · rintro b stored ⟨c, rfl, -⟩
    rfl
  · rintro m n' trigger time reading commands stored more ⟨c, hc, hcounts⟩ hm hlevels
    obtain ⟨c', rfl, hc', -⟩ := hm.impulseCounter hc
    refine ⟨_, hc', ?_⟩
    rw [hlevels 0 (by omega), hlevels 1 (by omega)]
    exact hcounts.step more

/-- An enabled impulse counter shows what it has counted as soon as something has happened to it. -/
theorem Lives.outputs_of_impulseCounter (h : n₀.Lives eps n) (henabled : n₀.enabled = true)
    (hne : eps ≠ []) {c : ImpulseCounter} (hc : n.behavior = .impulseCounter c) :
    n.ports.outputs = c.outputs := by
  obtain ⟨m, trigger, time, reading, commands, hparameters, hevaluates⟩ :=
    h.exists_evaluates henabled (by rw [hc]; rfl) hne
  rw [hc] at hparameters
  obtain ⟨c₀, hc₀⟩ := Behavior.exists_impulseCounter hparameters
  obtain ⟨c', -, hc', houtputs⟩ := hevaluates.impulseCounter hc₀
  cases hc'.symm.trans hc
  exact houtputs

/-- A node that was a counter when it was new has counted what was stored since. -/
theorem Lives.counter (h : n₀.Lives eps n) (hfresh : n₀.Fresh) (henabled : n₀.enabled = true)
    {c₀ : Counter} (hc₀ : n₀.behavior = .counter c₀) :
    ∃ c, n.behavior = .counter c ∧ c.Sound ∧ c.Counts (stores eps) := by
  obtain ⟨p, hp⟩ := hfresh.exists_params
  rw [hc₀] at hp
  obtain ⟨htype, hbuilt⟩ := Behavior.counter_of_ofParams hp
  have hports : n₀.ports.inputs.length = 3 := by
    rw [hfresh.fits.inputs, htype]
    rfl
  refine h.follow (P := fun b stored => ∃ c, b = .counter c ∧ c.Sound ∧ c.Counts stored) hfresh
    henabled ⟨c₀, hc₀, Counter.sound_of_ofParams hbuilt⟩ ?_ ?_
  · rintro b stored ⟨c, rfl, -⟩
    rfl
  · rintro m n' trigger time reading commands stored more ⟨c, hc, hsound, hcounts⟩ hm hlevels
    obtain ⟨c', rfl, hc', -⟩ := hm.counter hc
    refine ⟨_, hc', ⟨hsound.low, hsound.high, hsound.ordered⟩, ?_⟩
    rw [hlevels 0 (by omega), hlevels 1 (by omega), hlevels 2 (by omega)]
    exact hcounts.step more

/-- An enabled counter shows its count as soon as something has happened to it. -/
theorem Lives.outputs_of_counter (h : n₀.Lives eps n) (henabled : n₀.enabled = true)
    (hne : eps ≠ []) {c : Counter} (hc : n.behavior = .counter c) :
    n.ports.outputs = [.num c.count] := by
  obtain ⟨m, trigger, time, reading, commands, hparameters, hevaluates⟩ :=
    h.exists_evaluates henabled (by rw [hc]; rfl) hne
  rw [hc] at hparameters
  obtain ⟨c₀, hc₀⟩ := Behavior.exists_counter hparameters
  obtain ⟨c', -, hc', houtputs⟩ := hevaluates.counter hc₀
  cases hc'.symm.trans hc
  exact houtputs

end Node

end SignalGraph
