import SignalGraph.Proofs.Decimal.Rational

/-!
# Rounding a mantissa

A number is rounded from a mantissa with two further bits, which tell how the exact result goes on
after the mantissa (`Represents`). Shifting the mantissa keeps that, and so the packed result has
the value that `nearest` gives for the exact one (`packedValue_roundWithAccuracy`).
-/

namespace SignalGraph.Decimal

open Float.Model Float.Model.UnpackedFloat

/-! ### Mantissas with further digits -/

/-- The mantissa is the whole part of `q`, the round bit its first binary digit after the point, and
the sticky bit tells whether there are further ones. -/
def Represents (em : ExtendedMantissa) (q : ℚ) : Prop :=
  ∃ rest : ℚ, 0 ≤ rest ∧ rest < 1 / 2 ∧ (em.stickyBit = true ↔ rest ≠ 0) ∧
    q = em.mantissa + (if em.roundBit then 1 / 2 else 0) + rest

namespace Represents

variable {em : ExtendedMantissa} {q : ℚ}

theorem exact (m : ℕ) : Represents (.ofMantissaAndAccuracy m .exact) m :=
  ⟨0, le_rfl, by norm_num, by simp [ExtendedMantissa.ofMantissaAndAccuracy], by
    simp [ExtendedMantissa.ofMantissaAndAccuracy]⟩

theorem floor_eq (h : Represents em q) : ⌊q⌋ = em.mantissa := by
  obtain ⟨rest, hnonneg, hsmall, -, rfl⟩ := h
  rw [Int.floor_eq_iff, Int.cast_natCast]
  split_ifs <;> constructor <;> linarith

/-- The mantissa is rounded to the nearest whole number. -/
theorem roundedMantissa (h : Represents em q) : (em.roundedMantissa : ℤ) = nearestEven q := by
  have hfloor := h.floor_eq
  obtain ⟨rest, hnonneg, hsmall, hsticky, hq⟩ := h
  have hfract : Int.fract q = (if em.roundBit then 1 / 2 else 0) + rest := by
    rw [Int.fract, hfloor, Int.cast_natCast]
    linarith
  rw [nearestEven, hfloor, hfract]
  obtain ⟨m, round, sticky⟩ := em
  cases round
  · rw [if_pos (by simpa using hsmall)]
    cases sticky <;> rfl
  · rw [if_neg (by simpa using hnonneg)]
    cases sticky with
    | false =>
      have hzero : rest = 0 := by simpa using hsticky
      rw [if_pos (by simp [hzero])]
      exact_mod_cast rfl
    | true =>
      have hrest : rest ≠ 0 := by simpa using hsticky
      rw [if_neg (by simpa using hrest)]
      exact_mod_cast rfl

theorem shiftRightOne (h : Represents em q) : Represents em.shiftRightOne (q / 2) := by
  obtain ⟨rest, hnonneg, hsmall, hsticky, rfl⟩ := h
  obtain ⟨m, round, sticky⟩ := em
  have hdigits : (m : ℚ) = 2 * (m / 2 : ℕ) + (m % 2 : ℕ) := by
    exact_mod_cast (Nat.div_add_mod m 2).symm
  -- the round bit joins the further digits
  refine ⟨(if round then 1 / 2 else 0) / 2 + rest / 2, ?_, ?_, ?_, ?_⟩
  · split_ifs <;> linarith
  · split_ifs <;> linarith
  · cases round
    · simpa [ExtendedMantissa.shiftRightOne] using hsticky
    · simp only [ExtendedMantissa.shiftRightOne, Bool.true_or, if_true, true_iff]
      linarith
  · show ((m : ℚ) + (if round then 1 / 2 else 0) + rest) / 2 =
      (m / 2 : ℕ) + (if m % 2 != 0 then 1 / 2 else 0) + _
    rcases Nat.mod_two_eq_zero_or_one m with hmod | hmod <;> rw [hmod] at hdigits ⊢ <;>
      norm_num at hdigits ⊢ <;> linarith

theorem shiftRight (h : Represents em q) (n : ℕ) : Represents (em >>> n) (q / 2 ^ n) := by
  change Represents (n.repeat ExtendedMantissa.shiftRightOne em) _
  induction n with
  | zero => simpa [Nat.repeat] using h
  | succ n ih =>
    rw [pow_succ, ← div_div]
    exact ih.shiftRightOne

end Represents

/-! ### Rounding -/

section Round

variable {m : ℕ} {e : ℤ} {a : Accuracy} {q : ℚ}

theorem targetExponent_eq (m : ℕ) (e : ℤ) :
    Format.binary64.targetExponent (totalExponent m e) = max ((m.log2 : ℤ) + e - 52) (-1074) := by
  simp only [Format.targetExponent, totalExponent, Format.mantissaBits, Format.minExponent]
  norm_num
  omega

/-- The number of digits of the whole part tells the size of the number. -/
theorem log_eq (hm : 0 < m) (hfloor : ⌊q / 2 ^ e⌋ = m) : Int.log 2 q = m.log2 + e := by
  have hlow : (m : ℚ) * 2 ^ e ≤ q := by
    rw [← le_div_iff₀ (two_zpow_pos e)]
    exact_mod_cast (Int.floor_eq_iff.1 hfloor).1
  have hhigh : q < ((m + 1 : ℕ) : ℚ) * 2 ^ e := by
    rw [← div_lt_iff₀ (two_zpow_pos e)]
    exact_mod_cast (Int.floor_eq_iff.1 hfloor).2
  have hq : 0 < q := (mul_pos (Nat.cast_pos.2 hm) (two_zpow_pos e)).trans_le hlow
  have hleast : (2 : ℚ) ^ (m.log2 : ℤ) ≤ m := by exact_mod_cast Nat.log2_self_le hm.ne'
  have hmost : ((m + 1 : ℕ) : ℚ) ≤ 2 ^ ((m.log2 : ℤ) + 1) := by
    exact_mod_cast Nat.lt_log2_self
  apply le_antisymm
  · refine Int.lt_add_one_iff.1 ((Int.lt_zpow_iff_log_lt Nat.one_lt_two hq).1 ?_)
    calc q < ((m + 1 : ℕ) : ℚ) * 2 ^ e := hhigh
      _ ≤ 2 ^ ((m.log2 : ℤ) + 1) * 2 ^ e := mul_le_mul_of_nonneg_right hmost (two_zpow_pos e).le
      _ = ((2 : ℕ) : ℚ) ^ ((m.log2 : ℤ) + e + 1) := by
        rw [Nat.cast_two, ← zpow_add₀ two_ne_zero, add_right_comm]
  · refine (Int.zpow_le_iff_le_log Nat.one_lt_two hq).1 ?_
    rw [Nat.cast_two, zpow_add₀ two_ne_zero]
    exact (mul_le_mul_of_nonneg_right hleast (two_zpow_pos e).le).trans hlow

/-- The exponent at which a mantissa with enough digits is rounded is that of the last digit that
is kept. -/
theorem lastExponent_eq (hq : 0 < q) (hfloor : ⌊q / 2 ^ e⌋ = m)
    (hdigits : 52 ≤ m.log2 ∨ e ≤ -1074) : lastExponent q = max ((m.log2 : ℤ) + e - 52) (-1074) := by
  rcases Nat.eq_zero_or_pos m with rfl | hm
  · -- the number is below the least exponent
    have he : e ≤ -1074 := hdigits.resolve_left (by decide)
    have hsmall : q < 2 ^ e := by
      have hlt := (Int.floor_eq_iff.1 hfloor).2
      rw [div_lt_iff₀ (two_zpow_pos e)] at hlt
      simpa using hlt
    have hlog : Int.log 2 q < e :=
      (Int.lt_zpow_iff_log_lt Nat.one_lt_two hq).1 (by simpa using hsmall)
    have hzero : (0 : ℕ).log2 = 0 := by decide
    unfold lastExponent
    omega
  · rw [lastExponent, log_eq hm hfloor]

/-- Shifting to the exponent of the last digit keeps what the mantissa represents. -/
theorem shiftToTargetExponent_spec (hq : 0 < q)
    (h : Represents (.ofMantissaAndAccuracy m a) (q / 2 ^ e)) (hdigits : 52 ≤ m.log2 ∨ e ≤ -1074) :
    (shiftToTargetExponent .binary64 m e a).2 = lastExponent q ∧
      Represents (shiftToTargetExponent .binary64 m e a).1 (q / 2 ^ lastExponent q) := by
  have hmantissa : (ExtendedMantissa.ofMantissaAndAccuracy m a).mantissa = m := by
    cases a with
    | exact => rfl
    | inexact o => cases o <;> rfl
  have hlast : lastExponent q = Format.binary64.targetExponent (totalExponent m e) := by
    rw [targetExponent_eq, lastExponent_eq hq (by rw [h.floor_eq, hmantissa]) hdigits]
  have hle : e ≤ lastExponent q := by
    rw [hlast, targetExponent_eq]
    omega
  obtain ⟨n, hn⟩ := Int.le.dest hle
  have hamount : (lastExponent q - e).toNat = n := by omega
  have hpower : q / 2 ^ lastExponent q = q / 2 ^ e / 2 ^ n := by
    rw [← hn, zpow_add₀ two_ne_zero, zpow_natCast, div_div]
  rw [shiftToTargetExponent, ← hlast, shiftToExponent, hamount, hpower]
  exact ⟨hn, h.shiftRight n⟩

/-- A rounded mantissa that fits stays as it is. -/
theorem shiftToTargetExponent_of_lt (hm : m < 2 ^ 53) (he : -1074 ≤ e) :
    shiftToTargetExponent .binary64 m e .exact = (⟨m, false, false⟩, e) := by
  have hlog : m.log2 ≤ 52 := by
    rcases Nat.eq_zero_or_pos m with rfl | hpos
    · decide
    · exact Nat.lt_succ_iff.1 ((Nat.log2_lt hpos.ne').2 hm)
  have hamount : (Format.binary64.targetExponent (totalExponent m e) - e).toNat = 0 := by
    rw [targetExponent_eq]
    omega
  rw [shiftToTargetExponent, shiftToExponent, hamount]
  exact congrArg (Prod.mk _) (Int.add_zero e)

/-- A mantissa that rounding has made too long loses its last digit, a zero. -/
theorem shiftToTargetExponent_carry (he : -1074 ≤ e) :
    shiftToTargetExponent .binary64 (2 ^ 53) e .exact = (⟨2 ^ 52, false, false⟩, e + 1) := by
  have hamount : (Format.binary64.targetExponent (totalExponent (2 ^ 53) e) - e).toNat = 1 := by
    rw [targetExponent_eq, Nat.log2_two_pow]
    omega
  rw [shiftToTargetExponent, shiftToExponent, hamount]
  rfl

theorem nearest_signFactor_mul (s : UnpackedFloat.Sign) (hq : 0 ≤ q) :
    nearest (signFactor s * q) = signFactor s * min (keepDigits q) outOfRange := by
  cases s with
  | positive => rw [signFactor, one_mul, one_mul, nearest_of_nonneg hq]
  | negative => rw [signFactor, neg_one_mul, neg_one_mul, nearest_neg, nearest_of_nonneg hq]

/-- The rounded mantissa, at the exponent of the last digit. -/
theorem nearestEven_bounds (hq : 0 < q) :
    nearestEven (q / 2 ^ lastExponent q) ≤ 2 ^ 53 ∧
      (2 ^ 52 ≤ nearestEven (q / 2 ^ lastExponent q) ∨ lastExponent q = -1074) := by
  -- the exponent leaves 53 digits of `q`, unless it is the least one
  have hhigh : q ≤ 2 ^ (Int.log 2 q + 1) := by
    exact_mod_cast (Int.lt_zpow_succ_log_self Nat.one_lt_two q).le
  have hlow : 2 ^ Int.log 2 q ≤ q := by
    exact_mod_cast Int.zpow_log_le_self Nat.one_lt_two hq
  constructor
  · have hdigits : q / 2 ^ lastExponent q ≤ ((2 ^ 53 : ℤ) : ℚ) := by
      rw [div_le_iff₀ (two_zpow_pos _)]
      calc q ≤ 2 ^ (Int.log 2 q + 1) := hhigh
        _ ≤ 2 ^ (53 + lastExponent q) :=
          zpow_le_zpow_right₀ one_le_two (by unfold lastExponent; omega)
        _ = _ := by
          rw [zpow_add₀ two_ne_zero]
          norm_cast
    exact (nearestEven_mono hdigits).trans_eq (nearestEven_intCast _)
  · by_cases hleast : lastExponent q = -1074
    · exact .inr hleast
    · have hdigits : ((2 ^ 52 : ℤ) : ℚ) ≤ q / 2 ^ lastExponent q := by
        rw [le_div_iff₀ (two_zpow_pos _)]
        calc ((2 ^ 52 : ℤ) : ℚ) * 2 ^ lastExponent q = 2 ^ (52 + lastExponent q) := by
              rw [zpow_add₀ two_ne_zero]
              norm_cast
          _ ≤ 2 ^ Int.log 2 q :=
            zpow_le_zpow_right₀ one_le_two (by unfold lastExponent at *; omega)
          _ ≤ q := hlow
      exact .inl ((nearestEven_intCast _).symm.trans_le (nearestEven_mono hdigits))

/-- Rounding gives the nearest number. -/
theorem packedValue_roundWithAccuracy (s : UnpackedFloat.Sign) (hq : 0 < q)
    (h : Represents (.ofMantissaAndAccuracy m a) (q / 2 ^ e)) (hdigits : 52 ≤ m.log2 ∨ e ≤ -1074) :
    packedValue (roundWithAccuracy .binary64 s m e a) = nearest (signFactor s * q) := by
  obtain ⟨hexponent, hrepresents⟩ := shiftToTargetExponent_spec hq h hdigits
  obtain ⟨hmost, hleast⟩ := nearestEven_bounds hq
  have hmin : -1074 ≤ lastExponent q := le_max_right _ _
  have hrounded := hrepresents.roundedMantissa
  rw [nearest_signFactor_mul s hq.le, keepDigits]
  rw [← hrounded] at hmost hleast ⊢
  -- the mantissa is shifted once to its last digit, and after rounding once more for a carry
  unfold roundWithAccuracy
  generalize shiftToTargetExponent .binary64 m e a = first at *
  obtain ⟨em, e₁⟩ := first
  dsimp only at *
  subst hexponent
  generalize em.roundedMantissa = r at *
  rw [Int.cast_natCast]
  rcases (show r ≤ 2 ^ 53 by exact_mod_cast hmost).lt_or_eq with hlt | rfl
  · rw [shiftToTargetExponent_of_lt hlt hmin]
    dsimp only
    split
    · next hzero =>
      subst hzero
      rw [Nat.cast_zero, zero_mul, min_eq_left outOfRange_pos.le, mul_zero]
      exact packedValue_zero s
    · exact packedValue_finite s ⟨hlt, hmin, hleast.imp_left fun h => by exact_mod_cast h⟩ _
  · -- rounding has carried into one more digit
    have hcarry : ((2 ^ 52 : ℕ) : ℚ) * 2 ^ (lastExponent q + 1) =
        ((2 ^ 53 : ℕ) : ℚ) * 2 ^ lastExponent q := by
      rw [zpow_add_one₀ two_ne_zero]
      push_cast
      ring
    rw [shiftToTargetExponent_carry hmin]
    dsimp only
    rw [dif_neg (by decide), packedValue_finite s ⟨by decide, by omega, .inl le_rfl⟩, hcarry]

theorem log2_shiftLeft (hm : 0 < m) (k : ℕ) : (m <<< k).log2 = m.log2 + k := by
  rw [Nat.shiftLeft_eq, Nat.log2_eq_iff (by positivity)]
  rw [pow_add, add_right_comm, pow_add]
  exact ⟨Nat.mul_le_mul_right _ (Nat.log2_self_le hm.ne'),
    Nat.mul_lt_mul_of_pos_right Nat.lt_log2_self (Nat.two_pow_pos k)⟩

/-- A mantissa with too few digits is lengthened before it is rounded. -/
theorem packedValue_round (s : UnpackedFloat.Sign) (hm : 0 < m) (e : ℤ) :
    packedValue (UnpackedFloat.round .binary64 s m e) = nearest (signFactor s * (m * 2 ^ e)) := by
  unfold UnpackedFloat.round decreaseExponent
  dsimp only
  generalize hk : (e - Format.binary64.targetExponent (totalExponent m e)).toNat = k
  have hdigits : 52 ≤ (m <<< k).log2 ∨ e - k ≤ -1074 := by
    rw [targetExponent_eq] at hk
    rw [log2_shiftLeft hm]
    omega
  have hexact : (m : ℚ) * 2 ^ e / 2 ^ (e - k : ℤ) = (m <<< k : ℕ) := by
    rw [mul_div_assoc, ← zpow_sub₀ two_ne_zero, sub_sub_cancel, zpow_natCast, Nat.shiftLeft_eq]
    push_cast
    rfl
  refine packedValue_roundWithAccuracy s (mul_pos (Nat.cast_pos.2 hm) (two_zpow_pos e)) ?_ hdigits
  rw [hexact]
  exact .exact _

/-- A whole number of units is rounded to the nearest number. -/
theorem packedValue_normalize (n e : ℤ) (s : UnpackedFloat.Sign) :
    packedValue (UnpackedFloat.normalize .binary64 n e s) = nearest (n * 2 ^ e) := by
  unfold UnpackedFloat.normalize
  rcases lt_trichotomy n 0 with hneg | rfl | hpos
  · rw [Int.compare_eq_lt.2 hneg]
    have hmagnitude : (((-n).toNat : ℕ) : ℚ) = -n := by
      exact_mod_cast Int.toNat_of_nonneg (by omega : 0 ≤ -n)
    dsimp only
    rw [packedValue_round _ (by omega), hmagnitude, signFactor]
    congr 1
    ring
  · rw [show compare (0 : ℤ) 0 = .eq from rfl, Int.cast_zero, zero_mul, nearest_zero]
    exact packedValue_zero s
  · rw [Int.compare_eq_gt.2 hpos]
    have hmagnitude : ((n.toNat : ℕ) : ℚ) = n := by
      exact_mod_cast Int.toNat_of_nonneg hpos.le
    dsimp only
    rw [packedValue_round _ (by omega), hmagnitude, signFactor, one_mul]

end Round

end SignalGraph.Decimal
