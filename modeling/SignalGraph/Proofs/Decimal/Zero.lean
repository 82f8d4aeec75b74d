import SignalGraph.Proofs.Decimal.Order

/-!
# Zeros among the numbers

A sum with zero is the other summand, up to the sign of a zero (`alike_add_zero`), and the sign of a
zero makes no difference to what a number is rounded to (`Alike.roundTo`). More generally, alike
numbers have alike sums, differences and products (`Alike.add`, `Alike.sub`, `Alike.mul`); only a
quotient shows the sign of a zero that it is divided by.
-/

namespace SignalGraph.Decimal

open Float.Model Float.Model.UnpackedFloat

/-- A number is packed from what it unpacks to. -/
theorem mk_pack_unpack (x : Float) : (⟨Float.Model.pack x.toModel.unpack⟩ : Float) = x :=
  Float.ofBits_toBits x

theorem isZero_pack (s : UnpackedFloat.Sign) : IsZero ⟨Float.Model.pack (.zero s)⟩ :=
  ⟨s, unpack_packedZero⟩

/-- Zeros of either sign are what compares equal to zero. -/
theorem isZero_iff (x : Float) : IsZero x ↔ (x == 0.0) = true := by
  constructor
  · intro h
    have halike : Alike x 0.0 := .inr ⟨h, .positive, rfl⟩
    rw [halike.beq_eq_beq (.refl 0.0)]
    rfl
  · intro h
    have halike : Alike x 0.0 := by
      rw [alike_iff, h]
      rfl
    rcases halike with rfl | ⟨hzero, -⟩
    · exact ⟨.positive, rfl⟩
    · exact hzero

theorem alike_add_zero (x : Float) : Alike (x + 0.0) x := by
  have hadd : x + 0.0 = ⟨Float.Model.pack (add .binary64 x.toModel.unpack (.zero .positive))⟩ := rfl
  have hx := mk_pack_unpack x
  rw [hadd]
  cases hu : x.toModel.unpack with
  | zero s =>
    refine .inr ⟨?_, s, hu⟩
    cases s <;> exact isZero_pack _
  | _ =>
    rw [hu] at hx
    exact .inl hx

/-- What is packed from two zeros is alike. -/
theorem alike_pack_zero (s t : UnpackedFloat.Sign) :
    Alike ⟨Float.Model.pack (.zero s)⟩ ⟨Float.Model.pack (.zero t)⟩ :=
  .inr ⟨isZero_pack s, isZero_pack t⟩

namespace Alike

variable {x x' y y' : Float}

theorem trans {z : Float} (h : Alike x y) (h' : Alike y z) : Alike x z := by
  rcases h with rfl | ⟨hx, hy⟩
  · exact h'
  · rcases h' with rfl | ⟨-, hz⟩
    · exact .inr ⟨hx, hy⟩
    · exact .inr ⟨hx, hz⟩

theorem isFinite_eq (h : Alike x y) : x.isFinite = y.isFinite := by
  rcases h with rfl | ⟨⟨s, hx⟩, t, hy⟩
  · rfl
  · show x.toModel.unpack.isFinite = y.toModel.unpack.isFinite
    rw [hx, hy]
    rfl

/-! ### Sums, differences and products -/

/-- An operation gives alike results for alike operands if it does so for two zeros in each of its
places. -/
theorem of_zeros {f : UnpackedFloat → UnpackedFloat → UnpackedFloat}
    (hleft : ∀ s t u, Alike ⟨Float.Model.pack (f (.zero s) u)⟩ ⟨Float.Model.pack (f (.zero t) u)⟩)
    (hright : ∀ s t u, Alike ⟨Float.Model.pack (f u (.zero s))⟩ ⟨Float.Model.pack (f u (.zero t))⟩)
    (hx : Alike x x') (hy : Alike y y') :
    Alike ⟨Float.Model.pack (f x.toModel.unpack y.toModel.unpack)⟩
      ⟨Float.Model.pack (f x'.toModel.unpack y'.toModel.unpack)⟩ := by
  have hfirst : Alike ⟨Float.Model.pack (f x.toModel.unpack y.toModel.unpack)⟩
      ⟨Float.Model.pack (f x'.toModel.unpack y.toModel.unpack)⟩ := by
    rcases hx with rfl | ⟨⟨s, hx⟩, t, hx'⟩
    · exact .refl _
    · rw [hx, hx']
      exact hleft s t _
  have hsecond : Alike ⟨Float.Model.pack (f x'.toModel.unpack y.toModel.unpack)⟩
      ⟨Float.Model.pack (f x'.toModel.unpack y'.toModel.unpack)⟩ := by
    rcases hy with rfl | ⟨⟨s, hy⟩, t, hy'⟩
    · exact .refl _
    · rw [hy, hy']
      exact hright s t _
  exact hfirst.trans hsecond

theorem add (hx : Alike x x') (hy : Alike y y') : Alike (x + y) (x' + y') := by
  refine of_zeros (f := UnpackedFloat.add .binary64) (fun s t u => ?_) (fun s t u => ?_) hx hy
  · cases u with
    | zero r => cases s <;> cases t <;> cases r <;> exact alike_pack_zero _ _
    | notANumber | infinity | finite => exact .refl _
  · cases u with
    | zero r => cases s <;> cases t <;> cases r <;> exact alike_pack_zero _ _
    | notANumber | infinity | finite => exact .refl _

theorem sub (hx : Alike x x') (hy : Alike y y') : Alike (x - y) (x' - y') := by
  refine of_zeros (f := UnpackedFloat.sub .binary64) (fun s t u => ?_) (fun s t u => ?_) hx hy
  · cases u with
    | zero r => cases s <;> cases t <;> cases r <;> exact alike_pack_zero _ _
    | notANumber | infinity | finite => exact .refl _
  · cases u with
    | zero r => cases s <;> cases t <;> cases r <;> exact alike_pack_zero _ _
    | notANumber | infinity | finite => exact .refl _

theorem mul (hx : Alike x x') (hy : Alike y y') : Alike (x * y) (x' * y') := by
  refine of_zeros (f := UnpackedFloat.mul .binary64) (fun s t u => ?_) (fun s t u => ?_) hx hy
  · cases u with
    | notANumber | infinity => exact .refl _
    | zero | finite => exact alike_pack_zero _ _
  · cases u with
    | notANumber | infinity => exact .refl _
    | zero | finite => exact alike_pack_zero _ _

theorem mul_right (h : Alike x y) (z : Float) : Alike (x * z) (y * z) :=
  h.mul (.refl z)

/-! ### Quotients and rounding -/

theorem div_right (h : Alike x y) (z : Float) : Alike (x / z) (y / z) := by
  rcases h with rfl | ⟨⟨s, hx⟩, t, hy⟩
  · exact .refl _
  · have hdiv (x : Float) : x / z =
        ⟨Float.Model.pack (.div .binary64 x.toModel.unpack z.toModel.unpack)⟩ := rfl
    rw [hdiv, hdiv, hx, hy]
    cases z.toModel.unpack with
    | notANumber | zero => exact .inl rfl
    | infinity | finite => exact .inr ⟨isZero_pack _, isZero_pack _⟩

/-- A zero is a whole number. -/
theorem roundHalfAway_of_isZero (h : IsZero x) : roundHalfAway x = x := by
  have hzero : Alike x 0.0 := .inr ⟨h, .positive, rfl⟩
  have hneg : ¬ x < 0.0 := fun hlt => not_lt_self 0.0 ((hzero.lt_iff_lt (.refl 0.0)).1 hlt)
  have hpos : ¬ x > 0.0 := fun hlt => not_lt_self 0.0 (((Alike.refl 0.0).lt_iff_lt hzero).1 hlt)
  rw [roundHalfAway, if_neg hneg, if_neg hpos, ite_self]

theorem roundHalfAway (h : Alike x y) :
    Alike (Decimal.roundHalfAway x) (Decimal.roundHalfAway y) := by
  rcases h with rfl | ⟨hx, hy⟩
  · exact .refl _
  · rw [roundHalfAway_of_isZero hx, roundHalfAway_of_isZero hy]
    exact .inr ⟨hx, hy⟩

theorem roundTo (h : Alike x y) (decimals : Nat) :
    Alike (Decimal.roundTo x decimals) (Decimal.roundTo y decimals) :=
  (h.mul_right _).roundHalfAway.div_right _

end Alike

end SignalGraph.Decimal
