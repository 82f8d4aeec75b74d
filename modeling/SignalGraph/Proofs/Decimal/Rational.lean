import SignalGraph.Proofs.Decimal.Nearest
import SignalGraph.Proofs.Decimal.Order

/-!
# Numbers as rational numbers

Every number stands for a rational number, its `value`, where infinity counts as the least power of
two that is out of range. The order of numbers other than NaN is that of their values
(`le_iff_value_le`), and a number that is rounded while it is packed has the value that `nearest`
gives (`packedValue_finite`).
-/

namespace SignalGraph.Decimal

open Float.Model Float.Model.UnpackedFloat

/-! ### Values -/

/-- The factor of a sign. -/
def signFactor : UnpackedFloat.Sign → ℚ
  | .negative => -1
  | .positive => 1

/-- The value of an unpacked number; that of NaN is of no account. -/
def unpackedValue : UnpackedFloat → ℚ
  | .infinity s => signFactor s * outOfRange
  | .notANumber | .zero _ => 0
  | .finite s m e _ => signFactor s * (m * 2 ^ e)

/-- The value of a number. -/
def value (x : Float) : ℚ :=
  unpackedValue x.toModel.unpack

/-- The value of an unpacked number once it has been packed. -/
def packedValue (u : UnpackedFloat) : ℚ :=
  unpackedValue (Float.Model.pack u).unpack

/-- A mantissa and an exponent as binary64 wants them: 53 digits, and fewer only at the least
exponent. -/
structure Canonical (m : ℕ) (e : ℤ) : Prop where
  lt : m < 2 ^ 53
  le : -1074 ≤ e
  full : 2 ^ 52 ≤ m ∨ e = -1074

/-- What a binary64 number unpacks to: a canonical mantissa and exponent in range. -/
def InFormat : UnpackedFloat → Prop
  | .finite _ m e _ => Canonical m e ∧ e ≤ 971
  | _ => True

theorem inFormat_unpack (x : Float.Model) : InFormat x.unpack := by
  unfold Float.Model.unpack UnpackedFloat.unpack
  dsimp only
  have hbias : ((Format.binary64.exponentBias : ℤ) + ((52 : ℕ) : ℤ)) = 1075 := by decide
  rw [hbias]
  have hmantissa : (@unpackMantissa .binary64 x.toBits.toBitVec).toNat < 2 ^ 52 :=
    BitVec.isLt _
  have hexponent : (@unpackExponent .binary64 x.toBits.toBitVec).toNat < 2 ^ 11 :=
    BitVec.isLt _
  split
  · split <;> trivial
  -- an exponent field of zeros is that of a subnormal float, any other that of a normal one
  · next hspecial =>
    have hfinite : (@unpackExponent .binary64 x.toBits.toBitVec).toNat ≠ 2047 :=
      fun h => hspecial (BitVec.eq_of_toNat_eq h)
    split
    · next hzero =>
      have hleast : (@unpackExponent .binary64 x.toBits.toBitVec).toNat = 0 := by
        rw [hzero]
        rfl
      split
      · trivial
      · exact ⟨⟨by omega, by omega, .inr (by omega)⟩, by omega⟩
    · next hzero =>
      have hpositive : (@unpackExponent .binary64 x.toBits.toBitVec).toNat ≠ 0 :=
        fun h => hzero (BitVec.eq_of_toNat_eq h)
      have hone : (1#1 ++ @unpackMantissa .binary64 x.toBits.toBitVec).toNat =
          2 ^ 52 + (@unpackMantissa .binary64 x.toBits.toBitVec).toNat := by
        rw [BitVec.toNat_append, ← Nat.shiftLeft_add_eq_or_of_lt hmantissa]
        rfl
      exact ⟨⟨by omega, by omega, .inl (by omega)⟩, by omega⟩

/-! ### The order -/

section Compare

variable {m m' : ℕ} {e e' : ℤ}

theorem Canonical.magnitude_lt (h : Canonical m e) (he : e ≤ 971) :
    (m : ℚ) * 2 ^ e < outOfRange := by
  have hm : (m : ℚ) < 2 ^ (53 : ℤ) := by exact_mod_cast h.lt
  calc (m : ℚ) * 2 ^ e < 2 ^ (53 : ℤ) * 2 ^ e := mul_lt_mul_of_pos_right hm (two_zpow_pos e)
    _ ≤ 2 ^ (53 : ℤ) * 2 ^ (971 : ℤ) :=
      mul_le_mul_of_nonneg_left (zpow_le_zpow_right₀ one_le_two he) (two_zpow_pos 53).le
    _ = outOfRange := by rw [outOfRange, ← zpow_add₀ two_ne_zero]; norm_num

/-- A greater exponent makes a greater number, as then all 53 digits are there. -/
theorem Canonical.lt_of_exponent_lt (h : Canonical m e) (h' : Canonical m' e') (hlt : e < e') :
    (m : ℚ) * 2 ^ e < m' * 2 ^ e' := by
  have hfull : 2 ^ 52 ≤ m' := h'.full.resolve_right (by have := h.le; omega)
  have hm : (m : ℚ) < 2 ^ (53 : ℤ) := by exact_mod_cast h.lt
  have hm' : (2 : ℚ) ^ (52 : ℤ) ≤ m' := by exact_mod_cast hfull
  calc (m : ℚ) * 2 ^ e < 2 ^ (53 : ℤ) * 2 ^ e := mul_lt_mul_of_pos_right hm (two_zpow_pos e)
    _ = 2 ^ (52 : ℤ) * 2 ^ (e + 1) := by
      rw [← zpow_add₀ two_ne_zero, ← zpow_add₀ two_ne_zero]
      congr 1
      omega
    _ ≤ 2 ^ (52 : ℤ) * 2 ^ e' :=
      mul_le_mul_of_nonneg_left (zpow_le_zpow_right₀ one_le_two hlt) (two_zpow_pos 52).le
    _ ≤ m' * 2 ^ e' := mul_le_mul_of_nonneg_right hm' (two_zpow_pos e').le

/-- The order of exponents, then of mantissas, is that of the numbers. -/
theorem Canonical.compare_eq (h : Canonical m e) (h' : Canonical m' e') :
    (compare e e').then (compare m m') = compare ((m : ℚ) * 2 ^ e) (m' * 2 ^ e') := by
  rcases lt_trichotomy e e' with hlt | rfl | hgt
  · rw [compare_lt_iff_lt.2 hlt, compare_lt_iff_lt.2 (h.lt_of_exponent_lt h' hlt)]
    rfl
  · rw [compare_eq_iff_eq.2 rfl, Ordering.eq_then]
    rcases lt_trichotomy m m' with hlt | rfl | hgt
    · have hmul := mul_lt_mul_of_pos_right (Nat.cast_lt.2 hlt) (two_zpow_pos e)
      rw [compare_lt_iff_lt.2 hlt, compare_lt_iff_lt.2 hmul]
    · rw [compare_eq_iff_eq.2 rfl, compare_eq_iff_eq.2 rfl]
    · have hmul := mul_lt_mul_of_pos_right (Nat.cast_lt.2 hgt) (two_zpow_pos e)
      rw [compare_gt_iff_gt.2 hgt, compare_gt_iff_gt.2 hmul]
  · rw [compare_gt_iff_gt.2 hgt, compare_gt_iff_gt.2 (h'.lt_of_exponent_lt h hgt)]
    rfl

/-- Unpacked numbers compare like their values. -/
theorem compare_eq_compare {u v : UnpackedFloat} (hu : InFormat u) (hv : InFormat v)
    (hun : u.isNaN = false) (hvn : v.isNaN = false) :
    u.compare v = some (compare (unpackedValue u) (unpackedValue v)) := by
  have hlt : ∀ {p q : ℚ}, p < q → some Ordering.lt = some (compare p q) := fun h => by
    rw [compare_lt_iff_lt.2 h]
  have hgt : ∀ {p q : ℚ}, q < p → some Ordering.gt = some (compare p q) := fun h => by
    rw [compare_gt_iff_gt.2 h]
  have heq : ∀ p : ℚ, some Ordering.eq = some (compare p p) := fun p => by
    rw [compare_eq_iff_eq.2 rfl]
  have hrange := outOfRange_pos
  have hbounds : ∀ {s m e hm}, InFormat (.finite s m e hm) →
      0 < (m : ℚ) * 2 ^ e ∧ (m : ℚ) * 2 ^ e < outOfRange := fun {_ _ e hm} h =>
    ⟨mul_pos (Nat.cast_pos.2 hm) (two_zpow_pos e), h.1.magnitude_lt h.2⟩
  cases u with
  | notANumber => cases hun
  | infinity s =>
    cases v with
    | notANumber => cases hvn
    | infinity t =>
      cases s <;> cases t <;>
        simp only [UnpackedFloat.compare, unpackedValue, signFactor] <;>
        first | exact heq _ | exact hlt (by linarith) | exact hgt (by linarith)
    | zero t =>
      cases s <;> simp only [UnpackedFloat.compare, unpackedValue, signFactor] <;>
        first | exact hlt (by linarith) | exact hgt (by linarith)
    | finite t m e hm =>
      obtain ⟨hpos, hlimit⟩ := hbounds hv
      cases s <;> cases t <;>
        simp only [UnpackedFloat.compare, unpackedValue, signFactor] <;>
        first | exact hlt (by linarith) | exact hgt (by linarith)
  | zero s =>
    cases v with
    | notANumber => cases hvn
    | infinity t =>
      cases t <;> simp only [UnpackedFloat.compare, unpackedValue, signFactor] <;>
        first | exact hlt (by linarith) | exact hgt (by linarith)
    | zero t => exact heq 0
    | finite t m e hm =>
      obtain ⟨hpos, hlimit⟩ := hbounds hv
      cases t <;> simp only [UnpackedFloat.compare, unpackedValue, signFactor] <;>
        first | exact hlt (by linarith) | exact hgt (by linarith)
  | finite s m e hm =>
    obtain ⟨hpos, hlimit⟩ := hbounds hu
    cases v with
    | notANumber => cases hvn
    | infinity t =>
      cases s <;> cases t <;>
        simp only [UnpackedFloat.compare, unpackedValue, signFactor] <;>
        first | exact hlt (by linarith) | exact hgt (by linarith)
    | zero t =>
      cases s <;> simp only [UnpackedFloat.compare, unpackedValue, signFactor] <;>
        first | exact hlt (by linarith) | exact hgt (by linarith)
    | finite t m' e' hm' =>
      obtain ⟨hpos', -⟩ := hbounds hv
      have hmagnitudes := hu.1.compare_eq hv.1
      cases s <;> cases t <;> simp only [UnpackedFloat.compare, unpackedValue, signFactor]
      · -- a negative factor turns the order around
        rw [hmagnitudes, ← cmp_eq_compare, ← cmp_eq_compare, cmp_swap,
          cmp_mul_neg_left neg_one_lt_zero]
      · exact hlt (by linarith)
      · exact hgt (by linarith)
      · rw [hmagnitudes, one_mul, one_mul]

theorem le_iff_value_le {x y : Float} (hx : x.isNaN = false) (hy : y.isNaN = false) :
    x ≤ y ↔ value x ≤ value y := by
  rw [le_iff, compare_eq_compare (inFormat_unpack _) (inFormat_unpack _) hx hy]
  show (compare _ _).isLE = true ↔ _
  rw [Ordering.isLE_iff_ne_gt]
  exact compare_le_iff_le

theorem lt_iff_value_lt {x y : Float} (hx : x.isNaN = false) (hy : y.isNaN = false) :
    x < y ↔ value x < value y := by
  rw [lt_iff, compare_eq_compare (inFormat_unpack _) (inFormat_unpack _) hx hy, Option.some_inj]
  exact compare_lt_iff_lt

end Compare

/-! ### Packing -/

section Pack

variable {m : ℕ} {e : ℤ}

theorem unpack_packedInfinity (s : UnpackedFloat.Sign) :
    UnpackedFloat.unpack .binary64 (packedInfinity .binary64 s) = .infinity s := by
  simp [UnpackedFloat.unpack, packedInfinity]

theorem packedValue_zero (s : UnpackedFloat.Sign) : packedValue (.zero s) = 0 :=
  congrArg unpackedValue unpack_packedZero

theorem finite_congr {m m' : ℕ} {e e' : ℤ} (s : UnpackedFloat.Sign) {hm : 0 < m} {hm' : 0 < m'}
    (hmantissa : m = m') (hexponent : e = e') :
    UnpackedFloat.finite s m e hm = .finite s m' e' hm' := by
  subst hmantissa hexponent
  rfl

/-- A canonical number in range is unpacked as it was packed. -/
theorem unpack_pack_finite (s : UnpackedFloat.Sign) (h : Canonical m e) (he : e ≤ 971)
    (hm : 0 < m) : (Float.Model.pack (.finite s m e hm)).unpack = .finite s m e hm := by
  have hle := h.le
  have hlt := h.lt
  have hbias : (Format.binary64.exponentBias : ℤ) = 1023 := by decide
  have hbiased : (e + Format.binary64.exponentBias + ((52 : ℕ) : ℤ)).toNat = (e + 1075).toNat := by
    omega
  show UnpackedFloat.unpack .binary64 (UnpackedFloat.pack .binary64 (.finite s m e hm)) = _
  unfold UnpackedFloat.pack
  dsimp only
  rw [hbiased, if_neg (by omega)]
  by_cases hfull : 2 ^ 52 ≤ m
  · have hlog : m.log2 + 1 = Format.binary64.mantissaBits :=
      congrArg (· + 1) ((Nat.log2_eq_iff hm.ne').2 ⟨hfull, hlt⟩)
    have hexponent : (BitVec.ofNat 11 (e + 1075).toNat).toNat = (e + 1075).toNat := by
      rw [BitVec.toNat_ofNat, Nat.mod_eq_of_lt (by omega)]
    have hones : BitVec.ofNat 11 (e + 1075).toNat ≠ -1#11 := fun hbits => by
      have htoNat := congrArg BitVec.toNat hbits
      rw [hexponent] at htoNat
      change _ = 2047 at htoNat
      omega
    have hzeros : BitVec.ofNat 11 (e + 1075).toNat ≠ 0#11 := fun hbits => by
      have htoNat := congrArg BitVec.toNat hbits
      rw [hexponent] at htoNat
      change _ = 0 at htoNat
      omega
    -- the leading digit is dropped and put back
    have hmantissa : (1#1 ++ BitVec.ofNat 52 m).toNat = m := by
      rw [BitVec.toNat_append, ← Nat.shiftLeft_add_eq_or_of_lt (BitVec.isLt _), BitVec.toNat_ofNat]
      change 1 <<< 52 + m % 2 ^ 52 = m
      omega
    rw [if_pos hlog]
    unfold UnpackedFloat.unpack
    simp only [unpackMantissa_packComponents, unpackExponent_packComponents,
      unpackSign_packComponents, Sign.ofBitVec_toBitVec]
    rw [if_neg hones, if_neg hzeros]
    exact finite_congr s hmantissa (by omega)
  · have hlog : m.log2 + 1 ≠ Format.binary64.mantissaBits := by
      have hsmall := (Nat.log2_lt hm.ne').2 (not_le.1 hfull)
      change _ ≠ 53
      omega
    have hmantissa : (BitVec.ofNat 52 m).toNat = m := by
      rw [BitVec.toNat_ofNat, Nat.mod_eq_of_lt (not_le.1 hfull)]
    have hzeros : BitVec.ofNat 52 m ≠ 0#52 := fun hbits => by
      have htoNat := congrArg BitVec.toNat hbits
      rw [hmantissa] at htoNat
      change m = 0 at htoNat
      omega
    have hleast : e = -1074 := h.full.resolve_left hfull
    rw [if_neg hlog]
    unfold UnpackedFloat.unpack
    simp only [unpackMantissa_packComponents, unpackExponent_packComponents,
      unpackSign_packComponents, Sign.ofBitVec_toBitVec]
    rw [if_neg (by decide), if_pos trivial, dif_neg hzeros]
    exact finite_congr s hmantissa (by rw [BitVec.toNat_ofNat]; omega)

/-- A canonical number that is packed has its value, unless it is out of range. -/
theorem packedValue_finite (s : UnpackedFloat.Sign) (h : Canonical m e) (hm : 0 < m) :
    packedValue (.finite s m e hm) = signFactor s * min ((m : ℚ) * 2 ^ e) outOfRange := by
  by_cases he : e ≤ 971
  · rw [packedValue, unpack_pack_finite s h he hm, unpackedValue,
      min_eq_left (h.magnitude_lt he).le]
  · have hle := h.le
    have hbias : (Format.binary64.exponentBias : ℤ) = 1023 := by decide
    have hoverflow : 2 ^ 11 ≤ (e + Format.binary64.exponentBias + ((52 : ℕ) : ℤ)).toNat + 1 := by
      omega
    have hpack : (Float.Model.pack (.finite s m e hm)).unpack = .infinity s := by
      show UnpackedFloat.unpack .binary64 (UnpackedFloat.pack .binary64 (.finite s m e hm)) = _
      unfold UnpackedFloat.pack
      dsimp only
      rw [if_pos hoverflow, unpack_packedInfinity]
    -- all 53 digits are there, so the number is out of range
    have hfull : (2 : ℚ) ^ (52 : ℤ) ≤ m := by
      exact_mod_cast h.full.resolve_right (by omega)
    have hrange : outOfRange ≤ m * 2 ^ e := by
      calc outOfRange = 2 ^ (52 : ℤ) * 2 ^ (972 : ℤ) := by
            rw [outOfRange, ← zpow_add₀ two_ne_zero]
            norm_num
        _ ≤ 2 ^ (52 : ℤ) * 2 ^ e :=
          mul_le_mul_of_nonneg_left (zpow_le_zpow_right₀ one_le_two (by omega)) (two_zpow_pos 52).le
        _ ≤ m * 2 ^ e := mul_le_mul_of_nonneg_right hfull (two_zpow_pos e).le
    rw [packedValue, hpack, unpackedValue, min_eq_right hrange]

/-- A number in the format has its value also after packing. -/
theorem packedValue_of_inFormat {u : UnpackedFloat} (hu : InFormat u) :
    packedValue u = unpackedValue u := by
  cases u with
  | notANumber => exact congrArg unpackedValue unpack_packedNaN
  | infinity s => exact congrArg unpackedValue (unpack_packedInfinity s)
  | zero s => exact packedValue_zero s
  | finite s m e hm => exact congrArg unpackedValue (unpack_pack_finite s hu.1 hu.2 hm)

end Pack

end SignalGraph.Decimal
