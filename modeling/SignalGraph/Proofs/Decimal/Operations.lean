import SignalGraph.Proofs.Decimal.Rounded

/-!
# Operations on rational values

Products, quotients and differences of finite numbers are the exact ones, rounded to the nearest
number (`value_mul`, `value_div`, `value_sub`). The conversion to a word of 64 bits takes the whole
part (`toNat_toUInt64`), and the one from such a word is exact for small words (`value_toFloat`).
-/

namespace SignalGraph.Decimal

open Float.Model Float.Model.UnpackedFloat

/-! ### Signs -/

/-- Signs multiply as their factors do. -/
theorem signFactor_mul (s t : UnpackedFloat.Sign) :
    signFactor (s * t) = signFactor s * signFactor t := by
  cases s <;> cases t
  · exact (show (1 : ℚ) = -1 * -1 by norm_num)
  · exact (show (-1 : ℚ) = -1 * 1 by norm_num)
  · exact (show (-1 : ℚ) = 1 * -1 by norm_num)
  · exact (show (1 : ℚ) = 1 * 1 by norm_num)

theorem sign_div_eq_mul (s t : UnpackedFloat.Sign) : s / t = s * t := by
  cases s <;> cases t <;> rfl

theorem signFactor_neg (s : UnpackedFloat.Sign) : signFactor (-s) = -signFactor s := by
  cases s
  · exact (show (1 : ℚ) = - -1 by norm_num)
  · rfl

theorem signFactor_apply (s : UnpackedFloat.Sign) (n : ℤ) : (s.apply n : ℚ) = signFactor s * n := by
  cases s
  · rw [Sign.apply, signFactor, neg_one_mul, Int.cast_neg]
  · rw [Sign.apply, signFactor, one_mul]

/-! ### Numbers that are rounded already -/

section Unpacked

variable {u v : UnpackedFloat}

/-- The bound of the finite numbers is its own nearest value. -/
theorem nearest_outOfRange : nearest outOfRange = outOfRange := by
  have hexact : ((2 ^ 52 : ℕ) : ℚ) * 2 ^ (972 : ℤ) = outOfRange := by
    rw [outOfRange, Nat.cast_pow, Nat.cast_two, ← zpow_natCast, ← zpow_add₀ two_ne_zero]
    norm_num
  have hnearest := nearest_exact (m := 2 ^ 52) (e := 972) (by norm_num) (by norm_num) hexact.le
  rwa [hexact] at hnearest

/-- What is in the format is not rounded. -/
theorem nearest_unpackedValue (hu : InFormat u) : nearest (unpackedValue u) = unpackedValue u := by
  have hsigned : ∀ (s : UnpackedFloat.Sign) (q : ℚ), nearest q = q →
      nearest (signFactor s * q) = signFactor s * q := by
    intro s q hq
    cases s
    · rw [signFactor, neg_one_mul, nearest_neg, hq]
    · rw [signFactor, one_mul, hq]
  cases u with
  | notANumber | zero => exact nearest_zero
  | infinity s => exact hsigned s _ nearest_outOfRange
  | finite s m e hm =>
    exact hsigned s _ (nearest_exact hu.1.lt hu.1.le (hu.1.magnitude_lt hu.2).le)

theorem inFormat_neg (hu : InFormat u) : InFormat u.neg := by
  cases u <;> exact hu

/-- Changing the sign negates the value. -/
theorem unpackedValue_neg (u : UnpackedFloat) : unpackedValue u.neg = -unpackedValue u := by
  cases u with
  | notANumber | zero => exact neg_zero.symm
  | infinity s | finite s =>
    rw [UnpackedFloat.neg, unpackedValue, unpackedValue, signFactor_neg, neg_mul]

theorem inFormat_abs (hu : InFormat u) : InFormat u.abs := by
  cases u <;> exact hu

theorem abs_signFactor_mul (s : UnpackedFloat.Sign) {q : ℚ} (hq : 0 ≤ q) :
    |signFactor s * q| = q := by
  cases s
  · rw [signFactor, neg_one_mul, abs_neg, abs_of_nonneg hq]
  · rw [signFactor, one_mul, abs_of_nonneg hq]

/-- Dropping the sign takes the absolute value. -/
theorem unpackedValue_abs (u : UnpackedFloat) : unpackedValue u.abs = |unpackedValue u| := by
  cases u with
  | notANumber | zero => exact abs_zero.symm
  | infinity s =>
    rw [UnpackedFloat.abs, unpackedValue, unpackedValue, abs_signFactor_mul s outOfRange_pos.le,
      signFactor, one_mul]
  | finite s m e hm =>
    rw [UnpackedFloat.abs, unpackedValue, unpackedValue,
      abs_signFactor_mul s (mul_nonneg (Nat.cast_nonneg m) (two_zpow_pos e).le), signFactor,
      one_mul]

/-- The magnitude of a product has enough digits to be rounded. -/
theorem Canonical.mul_digits {m m' : ℕ} {e e' : ℤ} (h : Canonical m e) (h' : Canonical m' e')
    (hm : 0 < m) (hm' : 0 < m') : 52 ≤ (m * m').log2 ∨ e + e' ≤ -1074 := by
  have hle := Nat.le_mul_of_pos_right m hm'
  have hle' := Nat.le_mul_of_pos_left m' hm
  rw [Nat.le_log2 (Nat.mul_pos hm hm').ne']
  rcases h.full with hfull | he
  · exact .inl (hfull.trans hle)
  · rcases h'.full with hfull | he'
    · exact .inl (hfull.trans hle')
    · -- both factors are subnormal
      exact .inr (by omega)

/-- A product of finite numbers is the exact one, rounded once. -/
theorem packedValue_mul (hu : InFormat u) (hv : InFormat v) (hfu : u.isFinite = true)
    (hfv : v.isFinite = true) :
    packedValue (UnpackedFloat.mul .binary64 u v) =
      nearest (unpackedValue u * unpackedValue v) := by
  cases u with
  | notANumber | infinity => cases hfu
  | zero s =>
    rw [unpackedValue, zero_mul, nearest_zero]
    cases v with
    | notANumber | infinity => cases hfv
    | zero | finite => exact packedValue_zero _
  | finite s m e hm =>
    cases v with
    | notANumber | infinity => cases hfv
    | zero =>
      rw [unpackedValue, unpackedValue, mul_zero, nearest_zero]
      exact packedValue_zero _
    | finite t m' e' hm' =>
      -- the magnitudes are multiplied exactly, and the product is rounded once
      have hproduct : Represents (.ofMantissaAndAccuracy (m * m') .exact)
          (((m * m' : ℕ) : ℚ) * 2 ^ (e + e') / 2 ^ (e + e')) := by
        rw [mul_div_cancel_right₀ _ (two_zpow_pos _).ne']
        exact .exact _
      have hpos : (0 : ℚ) < ((m * m' : ℕ) : ℚ) * 2 ^ (e + e') :=
        mul_pos (Nat.cast_pos.2 (Nat.mul_pos hm hm')) (two_zpow_pos _)
      refine (packedValue_roundWithAccuracy (s * t) hpos hproduct
        (hu.1.mul_digits hv.1 hm hm')).trans ?_
      rw [signFactor_mul, unpackedValue, unpackedValue, zpow_add₀ two_ne_zero]
      push_cast
      congr 1
      ring

/-- A remainder tells how a quotient goes on after its whole part. -/
theorem Represents.ofFraction (n : ℕ) {d : ℕ} (hd : 0 < d) :
    Represents (.ofMantissaAndAccuracy (n / d) (accuracyOfFraction (n % d) d)) (n / d) := by
  have hdpos : (0 : ℚ) < d := Nat.cast_pos.2 hd
  have hquotient : (n : ℚ) / d = (n / d : ℕ) + (n % d : ℕ) / d := by
    rw [div_eq_iff hdpos.ne', add_mul, div_mul_cancel₀ _ hdpos.ne']
    exact_mod_cast (Nat.div_add_mod' n d).symm
  have hrest : ((n % d : ℕ) : ℚ) / d < 1 := by
    rw [div_lt_one hdpos]
    exact_mod_cast Nat.mod_lt n hd
  rw [hquotient, accuracyOfFraction]
  generalize n % d = r at *
  split
  · next hzero =>
    subst hzero
    simpa using Represents.exact (n / d)
  · next hpos =>
    have hr : (0 : ℚ) < r / d := div_pos (Nat.cast_pos.2 (Nat.pos_of_ne_zero hpos)) hdpos
    -- the round bit is set if the remainder is at least half of the divisor
    rcases lt_trichotomy (2 * r) d with hlt | heq | hgt
    · have hhalf : (r : ℚ) / d < 1 / 2 := by
        rw [div_lt_iff₀ hdpos]
        have hcast : (2 : ℚ) * r < d := by exact_mod_cast hlt
        linarith
      rw [compare_lt_iff_lt.2 hlt]
      exact ⟨r / d, hr.le, hhalf, by simp [ExtendedMantissa.ofMantissaAndAccuracy, hr.ne'],
        by simp [ExtendedMantissa.ofMantissaAndAccuracy]⟩
    · have hhalf : (r : ℚ) / d = 1 / 2 := by
        rw [div_eq_iff hdpos.ne']
        have hcast : (2 : ℚ) * r = d := by exact_mod_cast heq
        linarith
      rw [compare_eq_iff_eq.2 heq, hhalf]
      exact ⟨0, le_rfl, by norm_num, by simp [ExtendedMantissa.ofMantissaAndAccuracy],
        by simp [ExtendedMantissa.ofMantissaAndAccuracy]⟩
    · have hhalf : 1 / 2 < (r : ℚ) / d := by
        rw [lt_div_iff₀ hdpos]
        have hcast : (d : ℚ) < 2 * r := by exact_mod_cast hgt
        linarith
      rw [compare_gt_iff_gt.2 hgt]
      refine ⟨r / d - 1 / 2, by linarith, by linarith, ?_, ?_⟩
      · simp only [ExtendedMantissa.ofMantissaAndAccuracy, true_iff]
        linarith
      · simp [ExtendedMantissa.ofMantissaAndAccuracy]

/-- The quotient has enough digits to be rounded. -/
theorem divCore_digits {m m' : ℕ} (e e' : ℤ) (hm : 0 < m) (hm' : 0 < m') :
    52 ≤ (divCore .binary64 m e m' e').1.log2 ∨ (divCore .binary64 m e m' e').2.1 ≤ -1074 := by
  by_cases hleast : (divCore .binary64 m e m' e').2.1 ≤ -1074
  · exact .inr hleast
  left
  unfold divCore at hleast ⊢
  dsimp only at hleast ⊢
  generalize htarget : min (e - e')
    (Format.binary64.targetExponent (totalExponent m e - totalExponent m' e')) = target at *
  generalize hk : (e - e' - target).toNat = k
  -- the dividend is made 53 digits longer than the divisor
  have hlong : m'.log2 + 53 ≤ m.log2 + k := by
    simp only [Format.targetExponent, totalExponent, Format.mantissaBits,
      Format.minExponent] at htarget
    norm_num at htarget
    omega
  have hdividend : 2 ^ (m'.log2 + 53) ≤ m <<< k :=
    (Nat.le_log2 (by rw [Nat.shiftLeft_eq]; positivity)).1 (by rwa [log2_shiftLeft hm])
  have hquotient : 2 ^ 52 ≤ m <<< k / m' := by
    rw [Nat.le_div_iff_mul_le hm']
    calc 2 ^ 52 * m' ≤ 2 ^ 52 * 2 ^ (m'.log2 + 1) :=
          Nat.mul_le_mul_left _ Nat.lt_log2_self.le
      _ = 2 ^ (m'.log2 + 53) := by rw [← pow_add, add_left_comm]
      _ ≤ m <<< k := hdividend
  exact (Nat.le_log2 (by omega)).2 hquotient

/-- The quotient represents that of the two numbers. -/
theorem represents_divCore (m : ℕ) {m' : ℕ} (e e' : ℤ) (hm' : 0 < m') :
    Represents
      (.ofMantissaAndAccuracy (divCore .binary64 m e m' e').1 (divCore .binary64 m e m' e').2.2)
      ((m : ℚ) * 2 ^ e / (m' * 2 ^ e') / 2 ^ (divCore .binary64 m e m' e').2.1) := by
  unfold divCore
  dsimp only
  generalize htarget : min (e - e')
    (Format.binary64.targetExponent (totalExponent m e - totalExponent m' e')) = target
  have hle : target ≤ e - e' := htarget ▸ min_le_left _ _
  obtain ⟨k, hk⟩ := Int.le.dest hle
  have hamount : (e - e' - target).toNat = k := by omega
  have hexponent : e = e' + target + k := by omega
  have hvalue : (m : ℚ) * 2 ^ e / (m' * 2 ^ e') / 2 ^ target = (m <<< k : ℕ) / m' := by
    have hm'pos : (m' : ℚ) ≠ 0 := (Nat.cast_pos.2 hm').ne'
    rw [hexponent, zpow_add₀ two_ne_zero, zpow_add₀ two_ne_zero, zpow_natCast, Nat.shiftLeft_eq]
    push_cast
    field_simp
  rw [hamount, hvalue]
  exact .ofFraction _ hm'

/-- A quotient of finite numbers is the exact one, rounded once, unless the divisor is zero. -/
theorem packedValue_div (hu : InFormat u) (hv : InFormat v) (hfu : u.isFinite = true)
    (hfv : v.isFinite = true) (hzero : unpackedValue v ≠ 0) :
    packedValue (UnpackedFloat.div .binary64 u v) =
      nearest (unpackedValue u / unpackedValue v) := by
  cases u with
  | notANumber | infinity => cases hfu
  | zero s =>
    rw [unpackedValue, zero_div, nearest_zero]
    cases v with
    | notANumber | infinity => cases hfv
    | zero => exact (hzero rfl).elim
    | finite => exact packedValue_zero _
  | finite s m e hm =>
    cases v with
    | notANumber | infinity => cases hfv
    | zero => exact (hzero rfl).elim
    | finite t m' e' hm' =>
      -- long division leaves enough digits to round the exact quotient
      have hpos : (0 : ℚ) < m * 2 ^ e / (m' * 2 ^ e') :=
        div_pos (mul_pos (Nat.cast_pos.2 hm) (two_zpow_pos e))
          (mul_pos (Nat.cast_pos.2 hm') (two_zpow_pos e'))
      refine (packedValue_roundWithAccuracy (s / t) hpos (represents_divCore m e e' hm')
        (divCore_digits e e' hm hm')).trans ?_
      rw [sign_div_eq_mul, signFactor_mul, unpackedValue, unpackedValue]
      congr 1
      cases t <;> rw [signFactor] <;> ring

/-- A mantissa with a sign, brought to a smaller exponent. -/
theorem apply_shiftLeft (s : UnpackedFloat.Sign) (m : ℕ) {e e' : ℤ} (h : e' ≤ e) :
    ((s.apply (m <<< (e - e').toNat : ℕ) : ℤ) : ℚ) * 2 ^ e' = signFactor s * (m * 2 ^ e) := by
  obtain ⟨n, rfl⟩ := Int.le.dest h
  have hamount : (e' + n - e').toNat = n := by omega
  rw [signFactor_apply, Nat.shiftLeft_eq, hamount, zpow_add₀ two_ne_zero, zpow_natCast]
  push_cast
  ring

/-- A difference of finite numbers is the exact one, rounded once. -/
theorem packedValue_sub (hu : InFormat u) (hv : InFormat v) (hfu : u.isFinite = true)
    (hfv : v.isFinite = true) :
    packedValue (UnpackedFloat.sub .binary64 u v) =
      nearest (unpackedValue u - unpackedValue v) := by
  cases u with
  | notANumber | infinity => cases hfu
  | zero s =>
    cases v with
    | notANumber | infinity => cases hfv
    | zero t =>
      rw [unpackedValue, unpackedValue, sub_zero, nearest_zero]
      show packedValue (if s == -t then .zero s else .zero .positive) = 0
      split <;> exact packedValue_zero _
    | finite t m e hm =>
      have hneg : packedValue (.finite (-t) m e hm) = unpackedValue (.finite (-t) m e hm) :=
        packedValue_of_inFormat (u := .finite (-t) m e hm) hv
      refine hneg.trans ?_
      rw [unpackedValue.eq_3, zero_sub, nearest_neg, nearest_unpackedValue hv, unpackedValue,
        unpackedValue, signFactor_neg, neg_mul]
  | finite s m e hm =>
    cases v with
    | notANumber | infinity => cases hfv
    | zero t =>
      refine (packedValue_of_inFormat hu).trans ?_
      rw [unpackedValue.eq_3, sub_zero, nearest_unpackedValue hu]
    | finite t m' e' hm' =>
      -- both magnitudes are shifted to the smaller exponent, where they are subtracted exactly
      refine (packedValue_normalize _ (min e e') .positive).trans ?_
      rw [Int.cast_sub, sub_mul, apply_shiftLeft s m (min_le_left e e'),
        apply_shiftLeft t m' (min_le_right e e'), unpackedValue, unpackedValue]

/-- The whole part of a magnitude. -/
theorem roundToInt_positive (m : ℕ) (e : ℤ) :
    roundToInt .positive m e = ⌊(m : ℚ) * 2 ^ e⌋ := by
  have hshift := (Represents.exact (m <<< e.toNat)).shiftRight (-e).toNat
  -- only one of the two shifts moves anything
  have hvalue : ((m <<< e.toNat : ℕ) : ℚ) / 2 ^ (-e).toNat = m * 2 ^ e := by
    rw [Nat.shiftLeft_eq]
    push_cast
    rcases le_total 0 e with he | he
    · obtain ⟨n, rfl⟩ := Int.eq_ofNat_of_zero_le he
      have hzero : (-(n : ℤ)).toNat = 0 := by omega
      rw [hzero, pow_zero, div_one, Int.toNat_natCast, zpow_natCast]
    · obtain ⟨n, hn⟩ := Int.eq_ofNat_of_zero_le (neg_nonneg.2 he)
      have hzero : e.toNat = 0 := by omega
      have hneg : e = -(n : ℤ) := by omega
      rw [hzero, pow_zero, mul_one, hneg, neg_neg, Int.toNat_natCast, zpow_neg, zpow_natCast,
        div_eq_mul_inv]
  have hamount : (0 - (e - (e - 0).toNat)).toNat = (-e).toNat := by omega
  unfold roundToInt decreaseExponent shiftToExponent
  dsimp only
  rw [hamount, sub_zero]
  rw [hvalue] at hshift
  exact hshift.floor_eq.symm

end Unpacked

/-! ### Operations on numbers -/

section Operations

variable {x y : Float}

/-- The value of a product is the exact product, rounded. -/
theorem value_mul (hx : x.isFinite = true) (hy : y.isFinite = true) :
    value (x * y) = nearest (value x * value y) :=
  packedValue_mul (inFormat_unpack _) (inFormat_unpack _) hx hy

/-- The value of a quotient is the exact quotient, rounded. -/
theorem value_div (hx : x.isFinite = true) (hy : y.isFinite = true) (hzero : value y ≠ 0) :
    value (x / y) = nearest (value x / value y) :=
  packedValue_div (inFormat_unpack _) (inFormat_unpack _) hx hy hzero

/-- The value of a difference is the exact difference, rounded. -/
theorem value_sub (hx : x.isFinite = true) (hy : y.isFinite = true) :
    value (x - y) = nearest (value x - value y) :=
  packedValue_sub (inFormat_unpack _) (inFormat_unpack _) hx hy

theorem value_neg (x : Float) : value (-x) = -value x :=
  (packedValue_of_inFormat (inFormat_neg (inFormat_unpack _))).trans (unpackedValue_neg _)

theorem value_abs (x : Float) : value x.abs = |value x| :=
  (packedValue_of_inFormat (inFormat_abs (inFormat_unpack _))).trans (unpackedValue_abs _)

/-- The value of a converted integer is the integer, rounded. -/
theorem value_toFloat (n : UInt64) : value n.toFloat = nearest n.toNat := by
  refine (packedValue_normalize n.toNat 0 .positive).trans ?_
  rw [zpow_zero, mul_one, Int.cast_natCast]

/-- The whole part of a number that is not negative and fits into 64 bits. -/
theorem toNat_toUInt64 (h : 0 ≤ value x) (hlt : value x < 2 ^ 64) :
    (x.toUInt64.toNat : ℤ) = ⌊value x⌋ := by
  -- the value is neither negative nor too great, so it is not clamped
  have htoInt : x.toModel.unpack.toInt 0 (UInt64.size - 1) = ⌊value x⌋ := by
    have hrange : (2 : ℚ) ^ 64 ≤ outOfRange := by
      rw [← zpow_natCast]
      exact two_zpow_le_outOfRange (by norm_num)
    unfold value at *
    cases hu : x.toModel.unpack with
    | notANumber | zero => exact Int.floor_zero.symm
    | infinity s =>
      rw [hu, unpackedValue] at h hlt
      have hpos := outOfRange_pos
      cases s <;> rw [signFactor] at h hlt <;> linarith
    | finite s m e hm =>
      rw [hu, unpackedValue] at h
      cases s with
      | negative =>
        have hmagnitude : (0 : ℚ) < m * 2 ^ e := mul_pos (Nat.cast_pos.2 hm) (two_zpow_pos e)
        rw [signFactor] at h
        linarith
      | positive =>
        rw [UnpackedFloat.toInt, roundToInt_positive, unpackedValue, signFactor, one_mul]
  have hfloor : 0 ≤ ⌊value x⌋ := Int.floor_nonneg.2 h
  have hsize : ⌊value x⌋ < 2 ^ 64 := Int.floor_lt.2 (by exact_mod_cast hlt)
  show ((UInt64.ofNatClamp (x.toModel.unpack.toInt 0 (UInt64.size - 1)).toNat).toNat : ℤ) = _
  rw [htoInt, UInt64.ofNatClamp, dif_pos (by change _ < 2 ^ 64; omega)]
  exact Int.toNat_of_nonneg hfloor

end Operations

end SignalGraph.Decimal
