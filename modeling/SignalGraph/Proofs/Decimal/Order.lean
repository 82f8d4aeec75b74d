import SignalGraph.Proofs.Decimal.Alike
import SignalGraph.Json.Printer

/-!
# The order of numbers

Numbers other than NaN are in a total order, in which only the two zeros are equal without being the
same. So the greater and the lesser of two numbers bound both (`le_greater`, `lesser_le`). A whole
number that is rounded to binary64 is never NaN (`isNaN_floatOfInt`).
-/

namespace SignalGraph.Decimal

open Float.Model Float.Model.UnpackedFloat

/-! ### Comparing -/

theorem compare_swap (u v : UnpackedFloat) : v.compare u = (u.compare v).map Ordering.swap := by
  cases u with
  | notANumber => cases v <;> rfl
  | infinity s =>
    cases v with
    | infinity t => cases s <;> cases t <;> rfl
    | _ => cases s <;> rfl
  | zero s =>
    cases v with
    | infinity t | finite t => cases t <;> rfl
    | _ => rfl
  | finite s m e hm =>
    cases v with
    | infinity t => cases s <;> cases t <;> rfl
    | notANumber | zero => cases s <;> rfl
    | finite t m' e' hm' =>
      -- of two numbers of one sign the exponents come first, then the mantissas
      have hmagnitudes : ((compare e e').then (compare m m')).swap =
          (compare e' e).then (compare m' m) := by
        rw [Ordering.swap_then, ← Std.OrientedCmp.eq_swap, ← Std.OrientedCmp.eq_swap]
      cases s <;> cases t
      · exact congrArg (some ∘ Ordering.swap) hmagnitudes.symm
      · rfl
      · rfl
      · exact congrArg some hmagnitudes.symm

/-- Numbers can always be compared. -/
theorem compare_isSome {u v : UnpackedFloat} (hu : u.isNaN = false) (hv : v.isNaN = false) :
    (u.compare v).isSome = true := by
  cases u with
  | notANumber => cases hu
  | infinity s =>
    cases v with
    | notANumber => cases hv
    | infinity t => cases s <;> cases t <;> rfl
    | _ => cases s <;> rfl
  | zero s =>
    cases v with
    | notANumber => cases hv
    | infinity t | finite t => cases t <;> rfl
    | zero => rfl
  | finite s m e hm =>
    cases v with
    | notANumber => cases hv
    | infinity t => cases s <;> cases t <;> rfl
    | zero => cases s <;> rfl
    | finite t m' e' hm' => cases s <;> cases t <;> rfl

variable {x y : Float}

theorem not_lt_self (x : Float) : ¬ x < x := by
  rw [lt_iff]
  intro hlt
  have hswap := compare_swap x.toModel.unpack x.toModel.unpack
  rw [hlt] at hswap
  cases hswap

theorem le_of_lt (h : x < y) : x ≤ y := by
  rw [le_iff, (lt_iff x y).1 h]
  rfl

/-- Of two numbers other than NaN, one is at most the other. -/
theorem le_of_not_lt (hx : x.isNaN = false) (hy : y.isNaN = false) (h : ¬ y < x) : x ≤ y := by
  obtain ⟨o, ho⟩ := Option.isSome_iff_exists.1 (compare_isSome hx hy)
  rw [lt_iff, compare_swap, ho] at h
  rw [le_iff, ho]
  cases o with
  | gt => exact (h rfl).elim
  | lt | eq => rfl

theorem le_refl (hx : x.isNaN = false) : x ≤ x :=
  le_of_not_lt hx hx (not_lt_self x)

/-! ### The greater and the lesser of two numbers -/

/-- The greater of two floats is one of them. -/
theorem greater_eq_or (x y : Float) : greater x y = x ∨ greater x y = y := by
  unfold greater
  split_ifs <;> simp

theorem lesser_eq_or (x y : Float) : lesser x y = x ∨ lesser x y = y := by
  unfold lesser
  split_ifs <;> simp

theorem greater_self (x : Float) : greater x x = x :=
  (greater_eq_or x x).elim id id

theorem lesser_self (x : Float) : lesser x x = x :=
  (lesser_eq_or x x).elim id id

theorem greater_of_lt (h : y < x) : greater x y = x := by
  rw [greater, if_pos h, ite_self]

/-- Among numbers, the order decides which one is the greater. -/
theorem greater_of_not_isNaN (hy : y.isNaN = false) : greater x y = if y < x then x else y := by
  rw [greater, hy]
  rfl

theorem lesser_of_not_isNaN (hy : y.isNaN = false) : lesser x y = if x < y then x else y := by
  rw [lesser, hy]
  rfl

/-- The greater of two numbers is at least as great as the second. -/
theorem le_greater (hy : y.isNaN = false) : y ≤ greater x y := by
  rw [greater_of_not_isNaN hy]
  split
  · next hlt => exact le_of_lt hlt
  · exact le_refl hy

/-- The lesser of two numbers is at most as great as the second. -/
theorem lesser_le (hy : y.isNaN = false) : lesser x y ≤ y := by
  rw [lesser_of_not_isNaN hy]
  split
  · next hlt => exact le_of_lt hlt
  · exact le_refl hy

/-! ### What is not NaN -/

theorem isNaN_of_isFinite (h : x.isFinite = true) : x.isNaN = false := by
  change x.toModel.unpack.isFinite = true at h
  show x.toModel.unpack.isNaN = false
  cases hu : x.toModel.unpack with
  | notANumber =>
    rw [hu] at h
    cases h
  | _ => rfl

/-- Bits whose exponent is not all ones are those of a number. -/
theorem isNaNBits_packComponents {spec : Float.Model.Format} {exponent : BitVec spec.exponentBits}
    (h : exponent ≠ -1) (s : UnpackedFloat.Sign)
    (mantissa : BitVec spec.mantissaBitsWithoutImplicit) :
    isNaNBits (packComponents spec s exponent mantissa) = false := by
  rw [isNaNBits, unpackExponent_packComponents]
  exact decide_eq_false fun hbits => h hbits.1

theorem isNaNBits_packedInfinity {spec : Float.Model.Format} (s : UnpackedFloat.Sign) :
    isNaNBits (packedInfinity spec s) = false := by
  rw [packedInfinity, isNaNBits, unpackMantissa_packComponents]
  exact decide_eq_false fun hbits => hbits.2 rfl

/-- A number is packed with bits that are not those of NaN. -/
theorem isNaNBits_pack {u : UnpackedFloat} (hu : u.isNaN = false) :
    isNaNBits (UnpackedFloat.pack .binary64 u) = false := by
  cases u with
  | notANumber => cases hu
  | infinity s => exact isNaNBits_packedInfinity s
  | zero s => exact isNaNBits_packComponents (by decide) s 0
  | finite s m e hm =>
    unfold UnpackedFloat.pack
    dsimp only
    split
    · exact isNaNBits_packedInfinity s
    · next hexponent =>
      split
      · refine isNaNBits_packComponents (fun hones => ?_) s _
        -- the exponent field is smaller than all ones, or the infinity would have been chosen above
        have htoNat := congrArg BitVec.toNat hones
        rw [BitVec.toNat_ofNat] at htoNat
        change _ % 2 ^ 11 = 2 ^ 11 - 1 at htoNat
        change ¬ 2 ^ 11 ≤ _ at hexponent
        omega
      · exact isNaNBits_packComponents (by decide) s _

/-- Packing keeps a number a number. -/
theorem isNaN_ofModel_pack {u : UnpackedFloat} (hu : u.isNaN = false) :
    (Float.ofModel (Float.Model.pack u)).isNaN = false := by
  rw [Bool.eq_false_iff]
  intro hnan
  have hbits : UnpackedFloat.pack .binary64 u = packedNaN .binary64 :=
    (isNaN_unpack_iff_of_valid valid_pack).1 hnan
  have hpack := isNaNBits_pack hu
  rw [hbits, isNaNBits_packedNaN] at hpack
  cases hpack

/-! ### Whole numbers -/

theorem isNaN_roundWithAccuracy (spec : Float.Model.Format) (s : UnpackedFloat.Sign) (m : Nat)
    (e : Int) (a : Accuracy) : (roundWithAccuracy spec s m e a).isNaN = false := by
  unfold roundWithAccuracy
  dsimp only
  split <;> rfl

theorem isNaN_normalize (spec : Float.Model.Format) (m e : Int) (s : UnpackedFloat.Sign) :
    (UnpackedFloat.normalize spec m e s).isNaN = false := by
  unfold UnpackedFloat.normalize
  cases compare m 0 with
  | eq => rfl
  | lt | gt => exact isNaN_roundWithAccuracy ..

theorem isNaN_neg (hx : x.isNaN = false) : (-x).isNaN = false := by
  refine isNaN_ofModel_pack ?_
  change x.toModel.unpack.isNaN = false at hx
  cases hu : x.toModel.unpack with
  | notANumber =>
    rw [hu] at hx
    cases hx
  | _ => rfl

/-- A product with a finite factor other than zero is a number. -/
theorem isNaN_mul_finite {u : UnpackedFloat} (hu : u.isNaN = false) (spec : Float.Model.Format)
    (s : UnpackedFloat.Sign) (m : Nat) (e : Int) (hm : 0 < m) :
    (UnpackedFloat.mul spec u (.finite s m e hm)).isNaN = false := by
  cases u with
  | notANumber => cases hu
  | infinity | zero => rfl
  | finite => exact isNaN_roundWithAccuracy ..

/-- A numeral denotes a number, an infinite one if it is too large. -/
theorem isNaN_unpackedOfScientific (m e : Nat) :
    (UnpackedFloat.ofScientific .binary64 m e).isNaN = false := by
  unfold UnpackedFloat.ofScientific
  split
  · rfl
  · split
    · rfl
    · split
      · rfl
      · rw [if_pos (Int.natCast_nonneg e)]
        exact isNaN_mul_finite rfl ..

theorem isNaN_ofScientific_zero (m : Nat) : (Float.ofScientific m false 0).isNaN = false := by
  unfold Float.ofScientific
  split
  · -- a number of at most 53 bits is taken as it is, times one
    dsimp only
    refine isNaN_ofModel_pack ?_
    have hm : m.toUInt64.toFloat.isNaN = false := isNaN_ofModel_pack (isNaN_normalize ..)
    have hone : ∃ s m e hm,
        Float.exactlyRepresentablePowersOfTen[0].toModel.unpack = .finite s m e hm :=
      ⟨_, _, _, _, rfl⟩
    obtain ⟨s, m', e, hm', hone⟩ := hone
    rw [hone]
    exact isNaN_mul_finite hm ..
  · exact isNaN_ofModel_pack (isNaN_unpackedOfScientific m 0)

/-- A whole number rounded to binary64 is a number. -/
theorem isNaN_floatOfInt (i : Int) : (Json.floatOfInt i).isNaN = false := by
  unfold Json.floatOfInt
  dsimp only
  split
  · exact isNaN_neg (isNaN_ofScientific_zero _)
  · exact isNaN_ofScientific_zero _

end SignalGraph.Decimal
