import SignalGraph.Proofs.Decimal.Rational

/-!
# Where NaN comes from

Finite operands give numbers: a sum or difference with a finite operand is NaN only if the other one
is (`isNaN_add`, `isNaN_sub`), and so is a quotient of a finite number by anything but zero
(`isNaN_div`). A finite result in turn has finite operands (`isFinite_of_mul`, `isFinite_of_sub`).
Once there, NaN stays: it is neither limited nor rounded to a number (`limit_of_isNaN`,
`isNaN_roundTo_of_isNaN`).
-/

namespace SignalGraph.Decimal

open Float.Model Float.Model.UnpackedFloat

variable {x y : Float}

/-! ### Numbers -/

/-- A number is finite, an infinity or NaN. -/
theorem isFinite_or (hx : x.isNaN = false) :
    x.isFinite = true ∨ ∃ s, x.toModel.unpack = .infinity s := by
  change x.toModel.unpack.isNaN = false at hx
  show x.toModel.unpack.isFinite = true ∨ _
  generalize x.toModel.unpack = u at hx ⊢
  cases u with
  | notANumber => cases hx
  | infinity s => exact .inr ⟨s, rfl⟩
  | zero | finite => exact .inl rfl

theorem isNaN_toFloat (n : UInt64) : n.toFloat.isNaN = false :=
  isNaN_ofModel_pack (isNaN_normalize ..)

theorem isNaN_abs (hx : x.isNaN = false) : x.abs.isNaN = false := by
  refine isNaN_ofModel_pack ?_
  change x.toModel.unpack.isNaN = false at hx
  generalize x.toModel.unpack = u at hx ⊢
  cases u with
  | notANumber => cases hx
  | _ => rfl

/-- A sum is a number if one operand is finite and the other a number: only two infinities can
cancel. -/
theorem isNaN_add (hx : x.isFinite = true) (hy : y.isNaN = false) : (x + y).isNaN = false := by
  refine isNaN_ofModel_pack ?_
  show (add .binary64 x.toModel.unpack y.toModel.unpack).isNaN = false
  change x.toModel.unpack.isFinite = true at hx
  change y.toModel.unpack.isNaN = false at hy
  generalize x.toModel.unpack = u at hx ⊢
  generalize y.toModel.unpack = v at hy ⊢
  cases u with
  | notANumber | infinity => cases hx
  | zero s =>
    cases v with
    | notANumber => cases hy
    | zero t =>
      -- zeros add up to a zero, whose sign is all that depends on theirs
      show (if s == t then UnpackedFloat.zero s else .zero .positive).isNaN = false
      split <;> rfl
    | infinity | finite => rfl
  | finite =>
    cases v with
    | notANumber => cases hy
    | infinity | zero => rfl
    | finite => exact isNaN_normalize ..

/-- A difference is a number if it is one between a number and a finite float. -/
theorem isNaN_sub (hx : x.isNaN = false) (hy : y.isFinite = true) : (x - y).isNaN = false := by
  refine isNaN_ofModel_pack ?_
  show (sub .binary64 x.toModel.unpack y.toModel.unpack).isNaN = false
  change x.toModel.unpack.isNaN = false at hx
  change y.toModel.unpack.isFinite = true at hy
  generalize x.toModel.unpack = u at hx ⊢
  generalize y.toModel.unpack = v at hy ⊢
  cases v with
  | notANumber | infinity => cases hy
  | zero t =>
    cases u with
    | notANumber => cases hx
    | zero s =>
      -- zeros subtract to a zero, whose sign is all that depends on theirs
      show (if s == -t then UnpackedFloat.zero s else .zero .positive).isNaN = false
      split <;> rfl
    | infinity | finite => rfl
  | finite =>
    cases u with
    | notANumber => cases hx
    | infinity | zero => rfl
    | finite => exact isNaN_normalize ..

/-- A finite float divided by a number other than zero is a number. -/
theorem isNaN_div (hx : x.isFinite = true) (hy : y.isNaN = false) (hzero : (y == 0.0) = false) :
    (x / y).isNaN = false := by
  refine isNaN_ofModel_pack ?_
  show (div .binary64 x.toModel.unpack y.toModel.unpack).isNaN = false
  change x.toModel.unpack.isFinite = true at hx
  change y.toModel.unpack.isNaN = false at hy
  change (y.toModel.unpack.compare (.zero .positive) == some .eq) = false at hzero
  generalize x.toModel.unpack = u at hx ⊢
  generalize y.toModel.unpack = v at hy hzero ⊢
  cases u with
  | notANumber | infinity => cases hx
  | zero s =>
    cases v with
    | notANumber => cases hy
    | zero => cases hzero
    | infinity | finite => rfl
  | finite =>
    cases v with
    | notANumber => cases hy
    | zero => cases hzero
    | infinity => rfl
    | finite => exact isNaN_roundWithAccuracy ..

/-! ### Finite results -/

/-- An unpacked number that is finite after packing was so before. -/
theorem isFinite_of_pack {u : UnpackedFloat}
    (h : (⟨Float.Model.pack u⟩ : Float).isFinite = true) : u.isFinite = true := by
  change (UnpackedFloat.unpack .binary64 (UnpackedFloat.pack .binary64 u)).isFinite = true at h
  cases u with
  | notANumber =>
    rw [UnpackedFloat.pack, unpack_packedNaN] at h
    cases h
  | infinity s =>
    rw [UnpackedFloat.pack, unpack_packedInfinity] at h
    cases h
  | zero | finite => rfl

/-- The factors of a finite product are finite. -/
theorem isFinite_of_mul (h : (x * y).isFinite = true) : x.isFinite = true ∧ y.isFinite = true := by
  have hmul := isFinite_of_pack (u := mul .binary64 x.toModel.unpack y.toModel.unpack) h
  show x.toModel.unpack.isFinite = true ∧ y.toModel.unpack.isFinite = true
  generalize x.toModel.unpack = u at hmul ⊢
  generalize y.toModel.unpack = v at hmul ⊢
  cases u <;> cases v <;> first | exact ⟨rfl, rfl⟩ | cases hmul

theorem isFinite_of_sub (h : (x - y).isFinite = true) : x.isFinite = true ∧ y.isFinite = true := by
  have hsub := isFinite_of_pack (u := sub .binary64 x.toModel.unpack y.toModel.unpack) h
  show x.toModel.unpack.isFinite = true ∧ y.toModel.unpack.isFinite = true
  generalize x.toModel.unpack = u at hsub ⊢
  generalize y.toModel.unpack = v at hsub ⊢
  cases u with
  | notANumber => cases hsub
  | infinity s =>
    cases v with
    | infinity t => cases s <;> cases t <;> cases hsub
    | _ => cases hsub
  | zero | finite =>
    cases v with
    | notANumber | infinity => cases hsub
    | zero | finite => exact ⟨rfl, rfl⟩

/-! ### NaN stays -/

theorem isNaN_nan : (⟨Float.Model.pack .notANumber⟩ : Float).isNaN = true := by
  have hunpack : (Float.Model.pack .notANumber).unpack = .notANumber := unpack_packedNaN
  exact congrArg UnpackedFloat.isNaN hunpack

theorem unpack_of_isNaN (hx : x.isNaN = true) : x.toModel.unpack = .notANumber :=
  isNaN_iff.1 hx

theorem not_lt_of_isNaN (hx : x.isNaN = true) (y : Float) : ¬ x < y ∧ ¬ y < x := by
  rw [lt_iff, lt_iff, unpack_of_isNaN hx]
  generalize y.toModel.unpack = v
  constructor
  · intro h
    cases h
  · intro h
    cases v with
    | infinity s | finite s => cases s <;> cases h
    | zero | notANumber => cases h

/-- NaN cannot be limited. -/
theorem limit_of_isNaN (hx : x.isNaN = true) (low high : Float) : limit x low high = x := by
  rw [limit, if_neg (not_lt_of_isNaN hx low).1]
  exact if_neg (not_lt_of_isNaN hx high).2

theorem isNaN_mul_of_isNaN (hx : x.isNaN = true) (y : Float) : (x * y).isNaN = true := by
  show (⟨Float.Model.pack (mul .binary64 x.toModel.unpack y.toModel.unpack)⟩ : Float).isNaN = true
  rw [unpack_of_isNaN hx]
  exact isNaN_nan

theorem isNaN_div_of_isNaN (hx : x.isNaN = true) (y : Float) : (x / y).isNaN = true := by
  show (⟨Float.Model.pack (div .binary64 x.toModel.unpack y.toModel.unpack)⟩ : Float).isNaN = true
  rw [unpack_of_isNaN hx]
  exact isNaN_nan

theorem isNaN_abs_of_isNaN (hx : x.isNaN = true) : x.abs.isNaN = true := by
  show (⟨Float.Model.pack x.toModel.unpack.abs⟩ : Float).isNaN = true
  rw [unpack_of_isNaN hx]
  exact isNaN_nan

theorem roundHalfAway_of_isNaN (hx : x.isNaN = true) : roundHalfAway x = x :=
  if_neg (not_lt_of_isNaN (isNaN_abs_of_isNaN hx) wholeFrom).1

/-- NaN is rounded to NaN. -/
theorem isNaN_roundTo_of_isNaN (hx : x.isNaN = true) (d : Nat) : (roundTo x d).isNaN = true := by
  unfold roundTo
  dsimp only
  rw [roundHalfAway_of_isNaN (isNaN_mul_of_isNaN hx _)]
  exact isNaN_div_of_isNaN (isNaN_mul_of_isNaN hx _) _

end SignalGraph.Decimal
