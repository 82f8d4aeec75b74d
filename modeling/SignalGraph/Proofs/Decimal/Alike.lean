import Mathlib
import SignalGraph.Decimal.Rounding

/-!
# Numbers that no comparison tells apart

Two binary64 numbers are `Alike` if they are equal or both a zero. `alike_iff` says that this is
what `==` decides among numbers other than NaN, and `Alike.lt_iff_lt` and `Alike.le_iff_le` that
alike numbers have the same place in the order. The comparisons read nothing but what a number
unpacks to, and that determines the number (`toModel_unpack_injective`).
-/

namespace SignalGraph.Decimal

open Float.Model Float.Model.UnpackedFloat

/-- A float is determined by its unpacked form. -/
theorem toModel_unpack_injective {x y : Float} (h : x.toModel.unpack = y.toModel.unpack) :
    x = y := by
  have hbits := (unpack_inj_of_valid x.toModel.valid y.toModel.valid).1 h
  exact Float.toBits_inj.1 (UInt64.toBitVec_inj.1 hbits)

/-! ### Comparing unpacked numbers -/

/-- A comparison does not see the sign of a zero on its left. -/
theorem compare_zero_left (s t : UnpackedFloat.Sign) (u : UnpackedFloat) :
    UnpackedFloat.compare (.zero s) u = UnpackedFloat.compare (.zero t) u := by
  cases u with
  | infinity r => cases r <;> rfl
  | finite r => cases r <;> rfl
  | _ => rfl

theorem compare_zero_right (s t : UnpackedFloat.Sign) (u : UnpackedFloat) :
    u.compare (.zero s) = u.compare (.zero t) := by
  cases u with
  | infinity r => cases r <;> rfl
  | finite r => cases r <;> rfl
  | _ => rfl

/-! ### Alike numbers -/

/-- Whether a number is one of the two zeros. -/
def IsZero (x : Float) : Prop :=
  ∃ s, x.toModel.unpack = .zero s

/-- Whether two numbers are equal up to the sign of a zero. -/
def Alike (x y : Float) : Prop :=
  x = y ∨ IsZero x ∧ IsZero y

namespace Alike

theorem refl (x : Float) : Alike x x :=
  .inl rfl

/-- Floats that are alike compare in the same way from the left. -/
theorem compare_left {x y : Float} (h : Alike x y) (u : UnpackedFloat) :
    x.toModel.unpack.compare u = y.toModel.unpack.compare u := by
  rcases h with rfl | ⟨⟨s, hx⟩, t, hy⟩
  · rfl
  · rw [hx, hy, compare_zero_left s t]

theorem compare_right {x y : Float} (h : Alike x y) (u : UnpackedFloat) :
    u.compare x.toModel.unpack = u.compare y.toModel.unpack := by
  rcases h with rfl | ⟨⟨s, hx⟩, t, hy⟩
  · rfl
  · rw [hx, hy, compare_zero_right s t]

theorem compare_eq {x x' y y' : Float} (hx : Alike x x') (hy : Alike y y') :
    x.toModel.unpack.compare y.toModel.unpack = x'.toModel.unpack.compare y'.toModel.unpack := by
  rw [hx.compare_left, hy.compare_right]

/-- Of floats that are alike, both are not a number or none is. -/
theorem isNaN_eq {x y : Float} (h : Alike x y) : x.isNaN = y.isNaN := by
  rcases h with rfl | ⟨⟨s, hx⟩, t, hy⟩
  · rfl
  · show x.toModel.unpack.isNaN = y.toModel.unpack.isNaN
    rw [hx, hy]
    rfl

end Alike

/-! ### Comparisons of alike numbers -/

/-- Equality is a comparison of the unpacked forms. -/
theorem beq_eq (x y : Float) :
    (x == y) = (x.toModel.unpack.compare y.toModel.unpack == some .eq) :=
  rfl

theorem lt_iff (x y : Float) : x < y ↔ x.toModel.unpack.compare y.toModel.unpack = some .lt := by
  show decide (x.toModel.unpack.lt y.toModel.unpack = true) = true ↔ _
  simp [UnpackedFloat.lt]

theorem le_iff (x y : Float) :
    x ≤ y ↔ (x.toModel.unpack.compare y.toModel.unpack).any (·.isLE) = true := by
  exact decide_eq_true_iff

/-- Equality does not tell apart floats that are alike. -/
theorem Alike.beq_eq_beq {x x' y y' : Float} (hx : Alike x x') (hy : Alike y y') :
    (x == y) = (x' == y') := by
  rw [beq_eq, beq_eq, hx.compare_eq hy]

theorem Alike.lt_iff_lt {x x' y y' : Float} (hx : Alike x x') (hy : Alike y y') :
    x < y ↔ x' < y' := by
  rw [lt_iff, lt_iff, hx.compare_eq hy]

theorem Alike.le_iff_le {x x' y y' : Float} (hx : Alike x x') (hy : Alike y y') :
    x ≤ y ↔ x' ≤ y' := by
  rw [le_iff, le_iff, hx.compare_eq hy]

/-- Numbers are alike exactly if they are equal or both NaN. -/
theorem alike_iff (x y : Float) : Alike x y ↔ (x == y || x.isNaN && y.isNaN) = true := by
  rw [Bool.or_eq_true, Bool.and_eq_true, Float.isNaN_eq_decide_eq_nan,
    Float.isNaN_eq_decide_eq_nan, decide_eq_true_eq, decide_eq_true_eq]
  constructor
  · intro h
    by_cases hnan : x = .nan
    · have hnan' : y = .nan := by
        have hisNaN := h.isNaN_eq
        rw [Float.isNaN_eq_decide_eq_nan, Float.isNaN_eq_decide_eq_nan, decide_eq_decide] at hisNaN
        exact hisNaN.1 hnan
      exact .inr ⟨hnan, hnan'⟩
    · left
      rw [← (Alike.refl x).beq_eq_beq h, Float.beq_self_iff]
      exact hnan
  · rintro (h | ⟨rfl, rfl⟩)
    · -- either the same bits, or zeros of both signs
      obtain ⟨-, -, heq | ⟨hx, hy⟩ | ⟨hx, hy⟩⟩ := (beq_iff_ne_notANumber_and_eq _ _).1 h
      · exact .inl (toModel_unpack_injective heq)
      · exact .inr ⟨⟨_, hx⟩, _, hy⟩
      · exact .inr ⟨⟨_, hx⟩, _, hy⟩
    · exact .refl _

end SignalGraph.Decimal
