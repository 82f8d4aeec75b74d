import SignalGraph.Node.Arithmetic
import SignalGraph.Node.Comparison
import SignalGraph.Node.Gate
import SignalGraph.Proofs.Decimal.Alike

/-!
# Unchanged values

`Value.same` decides whether something has changed. It is an equivalence relation (`same_refl`,
`same_symm`, `same_trans`), and the nodes whose output depends on their inputs alone respect it: the
same inputs give the same output (`invert_congr`, `Gate.output_congr`, `Comparison.output_congr`,
`Clamp.output_congr`). The one case with an argument is the sign of a zero, which shows in a text
but never matters where texts are compared (`text_ne_of_isZero`).
-/

namespace SignalGraph

open Decimal

namespace Value

/-! ### An equivalence -/

theorem same_num_iff (x y : Float) : (num x).same (num y) = true ↔ Alike x y :=
  (alike_iff x y).symm

/-- Values are the same exactly if they are equal up to the sign of a zero. -/
theorem same_iff (a b : Value) :
    a.same b = true ↔ a = b ∨ ∃ x y, a = num x ∧ b = num y ∧ IsZero x ∧ IsZero y := by
  cases a <;> cases b
  case num.num x y => simpa [Alike] using same_num_iff x y
  all_goals simp [same]

theorem same_refl (a : Value) : a.same a = true :=
  (same_iff a a).2 (.inl rfl)

theorem same_symm {a b : Value} (h : a.same b = true) : b.same a = true := by
  rcases (same_iff a b).1 h with rfl | ⟨x, y, rfl, rfl, hx, hy⟩
  · exact h
  · exact (same_iff _ _).2 (.inr ⟨y, x, rfl, rfl, hy, hx⟩)

theorem same_trans {a b c : Value} (h : a.same b = true) (h' : b.same c = true) :
    a.same c = true := by
  rcases (same_iff a b).1 h with rfl | ⟨x, y, rfl, rfl, hx, hy⟩
  · exact h'
  · rcases (same_iff _ c).1 h' with rfl | ⟨y', z, -, rfl, -, hz⟩
    · exact h
    · exact (same_iff _ _).2 (.inr ⟨x, z, rfl, rfl, hx, hz⟩)

theorem same_comm (a b : Value) : a.same b = b.same a :=
  Bool.eq_iff_iff.2 ⟨same_symm, same_symm⟩

/-- A value compares with the same values alike. -/
theorem same_congr {a a' : Value} (h : a.same a' = true) (b : Value) : a.same b = a'.same b :=
  Bool.eq_iff_iff.2 ⟨same_trans (same_symm h), same_trans h⟩

/-! ### Casts of the same value -/

variable {a a' b b' : Value}

theorem isNull_congr (h : a.same a' = true) : a.isNull = a'.isNull := by
  rcases (same_iff a a').1 h with rfl | ⟨x, y, rfl, rfl, -, -⟩ <;> rfl

theorem bne_zero_of_isZero {x : Float} (h : IsZero x) : (x != 0.0) = false := by
  have : Alike x 0.0 := .inr ⟨h, .positive, rfl⟩
  rw [bne, this.beq_eq_beq (Alike.refl _)]
  rfl

/-- Same values have the same truth. -/
theorem truth_congr (h : a.same a' = true) : a.truth = a'.truth := by
  rcases (same_iff a a').1 h with rfl | ⟨x, y, rfl, rfl, hx, hy⟩
  · rfl
  · simp [truth, bne_zero_of_isZero hx, bne_zero_of_isZero hy]

/-- The numeric forms of the same values: none, or alike numbers. -/
theorem number?_congr (h : a.same a' = true) :
    a.number? = a'.number? ∨ ∃ x y, a.number? = some x ∧ a'.number? = some y ∧ Alike x y := by
  rcases (same_iff a a').1 h with rfl | ⟨x, y, rfl, rfl, hx, hy⟩
  · exact .inl rfl
  · exact .inr ⟨x, y, rfl, rfl, .inr ⟨hx, hy⟩⟩

/-- Same values have alike numbers. -/
theorem numberOr_congr (h : a.same a' = true) (default : Float) :
    Alike (a.numberOr default) (a'.numberOr default) := by
  unfold numberOr
  rcases number?_congr h with h | ⟨x, y, hx, hy, hxy⟩
  · rw [h]
    exact .refl _
  · rw [hx, hy]
    exact hxy

/-! ### Texts of zeros -/

/-- Zeros are written `0` or `-0`. -/
theorem text_of_isZero {x : Float} (h : IsZero x) :
    (num x).text = "0" ∨ (num x).text = "-0" := by
  have hzero : Alike x 0.0 := .inr ⟨h, .positive, rfl⟩
  have hbeq : (x == 0.0) = true := by
    rw [hzero.beq_eq_beq (Alike.refl _)]
    rfl
  have hnan : x.isNaN = false := by
    rw [hzero.isNaN_eq]
    rfl
  have hfinite : x.isFinite = true := by
    obtain ⟨s, hs⟩ := h
    show x.toModel.unpack.isFinite = true
    rw [hs]
    rfl
  simp only [text, Layout.write, hnan, hfinite, hbeq, Bool.not_true, Bool.false_eq_true, ↓reduceIte]
  cases isNegative x
  · exact .inl rfl
  · exact .inr rfl

/-- No value without a numeric form shows the text of a zero. -/
theorem text_ne_of_isZero {x : Float} (h : IsZero x) (hb : b.number? = none) :
    (num x).text ≠ b.text := by
  have hzero : (parseNumber? (num x).text).isSome = true := by
    rcases text_of_isZero h with h | h <;> rw [h] <;> rfl
  intro heq
  cases b with
  | null => rcases text_of_isZero h with h | h <;> rw [h] at heq <;> exact absurd heq (by decide)
  | bool b => cases hb
  | num y => cases hb
  | str s =>
    change parseNumber? s = none at hb
    rw [heq, text, hb] at hzero
    cases hzero

end Value

/-! ### Outputs for the same inputs -/

variable {a a' b b' : Value}

theorem invert_congr (h : a.same a' = true) : (invert a).same (invert a') = true := by
  rw [invert, invert, Value.truth_congr h]
  exact Value.same_refl _

/-- Gates see the truth of their inputs alone. -/
theorem Gate.output_congr (g : Gate) (ha : a.same a' = true) (hb : b.same b' = true) :
    (g.output a b).same (g.output a' b') = true := by
  unfold output
  rw [Value.truth_congr ha, Value.truth_congr hb]
  exact Value.same_refl _

namespace Relation

/-- Equality, which casts its sides, does not tell same values apart. -/
theorem equal_congr_left (h : a.same a' = true) (b : Value) : equal a b = equal a' b := by
  rcases (Value.same_iff a a').1 h with rfl | ⟨x, y, rfl, rfl, hx, hy⟩
  · rfl
  · unfold equal
    cases hb : b.number? with
    | some z => exact Alike.beq_eq_beq (.inr ⟨hx, hy⟩) (.refl z)
    | none =>
      -- `b` is a text or `null`, and no such text is that of a zero
      show ((Value.num x).same b || (Value.num x).text == b.text) =
        ((Value.num y).same b || (Value.num y).text == b.text)
      rw [Value.same_congr h, beq_false_of_ne (Value.text_ne_of_isZero hx hb),
        beq_false_of_ne (Value.text_ne_of_isZero hy hb)]

theorem equal_congr_right (a : Value) (h : b.same b' = true) : equal a b = equal a b' := by
  rcases (Value.same_iff b b').1 h with rfl | ⟨x, y, rfl, rfl, hx, hy⟩
  · rfl
  · unfold equal
    cases ha : a.number? with
    | some z => exact Alike.beq_eq_beq (.refl z) (.inr ⟨hx, hy⟩)
    | none =>
      show (a.same (.num x) || a.text == (Value.num x).text) =
        (a.same (.num y) || a.text == (Value.num y).text)
      rw [Value.same_comm a, Value.same_comm a, Value.same_congr h,
        beq_false_of_ne (Value.text_ne_of_isZero hx ha).symm,
        beq_false_of_ne (Value.text_ne_of_isZero hy ha).symm]

theorem holds_congr (r : Relation) (ha : a.same a' = true) (hb : b.same b' = true) :
    r.holds a b = r.holds a' b' := by
  have hx := Value.numberOr_congr ha 0.0
  have hy := Value.numberOr_congr hb 0.0
  have hequal : equal a b = equal a' b' := (equal_congr_left ha b).trans (equal_congr_right a' hb)
  cases r with
  | eq => exact hequal
  | ne => exact congrArg Bool.not hequal
  | gt => exact decide_eq_decide.2 (hy.lt_iff_lt hx)
  | ge => exact decide_eq_decide.2 (hy.le_iff_le hx)
  | lt => exact decide_eq_decide.2 (hx.lt_iff_lt hy)
  | le => exact decide_eq_decide.2 (hx.le_iff_le hy)

end Relation

/-- Comparisons of same values are the same. -/
theorem Comparison.output_congr (c : Comparison) (ha : a.same a' = true) (hb : b.same b' = true) :
    (c.output a b).same (c.output a' b') = true := by
  -- the right side may be replaced by the fallback, on both occasions or on neither
  have hside : (if b.isNull then c.fallback else b).same
      (if b'.isNull then c.fallback else b') = true := by
    rw [Value.isNull_congr hb]
    split
    · exact Value.same_refl _
    · exact hb
  unfold output
  rw [c.relation.holds_congr ha hside]
  exact Value.same_refl _

/-- Limits of alike numbers are alike. -/
theorem limit_congr {x y : Float} (h : Alike x y) (low high : Float) :
    Alike (limit x low high) (limit y low high) := by
  -- first the lower limit, then the upper one
  have raised : Alike (if x < low then low else x) (if y < low then low else y) := by
    simp only [h.lt_iff_lt (.refl low)]
    split
    · exact .refl low
    · exact h
  unfold limit
  generalize (if x < low then low else x) = r at raised ⊢
  generalize (if y < low then low else y) = r' at raised ⊢
  simp only [gt_iff_lt, (Alike.refl high).lt_iff_lt raised]
  split
  · exact .refl high
  · exact raised

theorem Clamp.output_congr (c : Clamp) (h : a.same a' = true) :
    (c.output a).same (c.output a') = true :=
  (Value.same_num_iff _ _).2 (limit_congr (Value.numberOr_congr h c.low) c.low c.high)

end SignalGraph
