import SignalGraph.Proofs.Decimal.NotANumber
import SignalGraph.Proofs.Decimal.Operations

/-!
# Rounding keeps the order

Multiplying and dividing by a positive finite number keeps the order, also where the result
overflows, and so does rounding to whole numbers (`value_roundHalfAway`, `halfAway_mono`). So
rounding to at most ten decimals keeps the order (`roundTo_le_roundTo`).
-/

namespace SignalGraph.Decimal

open Float.Model Float.Model.UnpackedFloat

/-! ### Finite numbers and infinities -/

section Finite

variable {x y : Float}

theorem value_of_infinity {s : UnpackedFloat.Sign} (hx : x.toModel.unpack = .infinity s) :
    value x = signFactor s * outOfRange := by
  rw [value, hx, unpackedValue]

/-- A finite float is in range. -/
theorem abs_value_lt (hx : x.isFinite = true) : |value x| < outOfRange := by
  change x.toModel.unpack.isFinite = true at hx
  have hformat := inFormat_unpack x.toModel
  unfold value
  generalize x.toModel.unpack = u at hx hformat ⊢
  cases u with
  | notANumber | infinity => cases hx
  | zero => simpa [unpackedValue] using outOfRange_pos
  | finite s m e hm =>
    rw [unpackedValue,
      abs_signFactor_mul s (mul_nonneg (Nat.cast_nonneg m) (two_zpow_pos e).le)]
    exact hformat.1.magnitude_lt hformat.2

/-- No float has a value beyond the first one out of range. -/
theorem abs_value_le (x : Float) : |value x| ≤ outOfRange := by
  by_cases hx : x.isNaN = true
  · rw [Float.isNaN_eq_decide_eq_nan, decide_eq_true_eq] at hx
    have hzero : value x = 0 := by
      rw [hx]
      rfl
    rw [hzero, abs_zero]
    exact outOfRange_pos.le
  · rcases isFinite_or (Bool.eq_false_iff.2 hx) with hfinite | ⟨s, hs⟩
    · exact (abs_value_lt hfinite).le
    · rw [value_of_infinity hs, abs_signFactor_mul s outOfRange_pos.le]

/-- An operation keeps the order if on finite numbers it rounds a function that does, and leaves
the infinities alone. -/
theorem value_mono_of {g : Float → Float} {f : ℚ → ℚ} (hf : Monotone f)
    (hfinite : ∀ x, x.isFinite = true → value (g x) = nearest (f (value x)))
    (hinfinity : ∀ x s, x.toModel.unpack = .infinity s → value (g x) = value x)
    (hx : x.isNaN = false) (hy : y.isNaN = false) (h : value x ≤ value y) :
    value (g x) ≤ value (g y) := by
  have hleast := (abs_le.1 (abs_value_le (g y))).1
  have hgreatest := (abs_le.1 (abs_value_le (g x))).2
  rcases isFinite_or hx with hxf | ⟨s, hs⟩
  · rcases isFinite_or hy with hyf | ⟨t, ht⟩
    · rw [hfinite x hxf, hfinite y hyf]
      exact nearest_mono (hf h)
    · -- no finite number is at most the negative infinity
      rw [hinfinity y t ht]
      have hgreater := (abs_lt.1 (abs_value_lt hxf)).1.trans_le h
      rw [value_of_infinity ht] at hgreater ⊢
      cases t with
      | negative =>
        rw [signFactor, neg_one_mul] at hgreater
        exact (lt_irrefl _ hgreater).elim
      | positive => rwa [signFactor, one_mul]
  · rw [hinfinity x s hs]
    cases s with
    | negative => rwa [value_of_infinity hs, signFactor, neg_one_mul]
    | positive =>
      rw [value_of_infinity hs, signFactor, one_mul] at h ⊢
      -- nothing finite is at least the positive infinity
      rcases isFinite_or hy with hyf | ⟨t, ht⟩
      · exact (lt_irrefl _ ((abs_lt.1 (abs_value_lt hyf)).2.trans_le h)).elim
      · rwa [hinfinity y t ht]

end Finite

/-! ### Positive factors -/

section Factor

variable {c : Float}

/-- What a positive finite number unpacks to. -/
theorem exists_finite_of_pos (hc : c.isFinite = true) (hpos : 0 < value c) :
    ∃ m e hm, c.toModel.unpack = .finite .positive m e hm := by
  change c.toModel.unpack.isFinite = true at hc
  unfold value at hpos
  generalize c.toModel.unpack = u at hc hpos ⊢
  cases u with
  | notANumber | infinity => cases hc
  | zero => exact (lt_irrefl _ hpos).elim
  | finite s m e hm =>
    cases s with
    | positive => exact ⟨m, e, hm, rfl⟩
    | negative =>
      have hmagnitude : (0 : ℚ) < m * 2 ^ e := mul_pos (Nat.cast_pos.2 hm) (two_zpow_pos e)
      rw [unpackedValue, signFactor] at hpos
      linarith

/-- A number times a positive finite factor is a number. -/
theorem isNaN_mul_factor (hc : c.isFinite = true) (hpos : 0 < value c) {x : Float}
    (hx : x.isNaN = false) : (x * c).isNaN = false := by
  obtain ⟨m, e, hm, hu⟩ := exists_finite_of_pos hc hpos
  show (⟨Float.Model.pack (mul .binary64 x.toModel.unpack c.toModel.unpack)⟩ : Float).isNaN =
    false
  rw [hu]
  exact isNaN_ofModel_pack (isNaN_mul_finite hx _ _ _ _ _)

/-- A number divided by a positive finite factor is a number. -/
theorem isNaN_div_factor (hc : c.isFinite = true) (hpos : 0 < value c) {x : Float}
    (hx : x.isNaN = false) : (x / c).isNaN = false := by
  obtain ⟨m, e, hm, hu⟩ := exists_finite_of_pos hc hpos
  show (⟨Float.Model.pack (div .binary64 x.toModel.unpack c.toModel.unpack)⟩ : Float).isNaN =
    false
  rw [hu]
  refine isNaN_ofModel_pack ?_
  change x.toModel.unpack.isNaN = false at hx
  generalize x.toModel.unpack = u at hx ⊢
  cases u with
  | notANumber => cases hx
  | infinity | zero => rfl
  | finite => exact isNaN_roundWithAccuracy ..

/-- An infinity stays itself under a positive factor. -/
theorem value_mul_infinity (hc : c.isFinite = true) (hpos : 0 < value c) {x : Float}
    {s : UnpackedFloat.Sign} (hx : x.toModel.unpack = .infinity s) : value (x * c) = value x := by
  obtain ⟨m, e, hm, hu⟩ := exists_finite_of_pos hc hpos
  show packedValue (mul .binary64 x.toModel.unpack c.toModel.unpack) =
    unpackedValue x.toModel.unpack
  rw [hu, hx]
  cases s <;> exact packedValue_of_inFormat trivial

/-- An infinity divided by a positive finite factor stays what it is. -/
theorem value_div_infinity (hc : c.isFinite = true) (hpos : 0 < value c) {x : Float}
    {s : UnpackedFloat.Sign} (hx : x.toModel.unpack = .infinity s) : value (x / c) = value x := by
  obtain ⟨m, e, hm, hu⟩ := exists_finite_of_pos hc hpos
  show packedValue (div .binary64 x.toModel.unpack c.toModel.unpack) =
    unpackedValue x.toModel.unpack
  rw [hu, hx]
  cases s <;> exact packedValue_of_inFormat trivial

variable {x y : Float}

/-- Multiplication by a positive finite factor is monotone. -/
theorem value_mul_mono (hc : c.isFinite = true) (hpos : 0 < value c) (hx : x.isNaN = false)
    (hy : y.isNaN = false) (h : value x ≤ value y) : value (x * c) ≤ value (y * c) :=
  value_mono_of (g := fun z => z * c) (f := fun q => q * value c)
    (fun _ _ hle => mul_le_mul_of_nonneg_right hle hpos.le)
    (fun _ hfinite => value_mul hfinite hc) (fun _ _ hs => value_mul_infinity hc hpos hs) hx hy h

/-- Division by a positive finite factor is monotone. -/
theorem value_div_mono (hc : c.isFinite = true) (hpos : 0 < value c) (hx : x.isNaN = false)
    (hy : y.isNaN = false) (h : value x ≤ value y) : value (x / c) ≤ value (y / c) :=
  value_mono_of (g := fun z => z / c) (f := fun q => q / value c)
    (fun _ _ hle => div_le_div_of_nonneg_right hle hpos.le)
    (fun _ hfinite => value_div hfinite hc hpos.ne') (fun _ _ hs => value_div_infinity hc hpos hs)
    hx hy h

end Factor

/-! ### Whole numbers -/

/-- The nearest whole number of a number that is not negative, a half going up. -/
def halfUp (q : ℚ) : ℤ :=
  if nearest (Int.fract q) < 1 / 2 then ⌊q⌋ else ⌊q⌋ + 1

/-- The nearest whole number of a number that has a fraction at all, a half going away from zero. -/
def halfAway (q : ℚ) : ℚ :=
  if |q| < 2 ^ 52 then if q < 0 then -halfUp (-q) else halfUp q else q

section HalfAway

variable {p q : ℚ}

theorem halfUp_mono (h : p ≤ q) : halfUp p ≤ halfUp q := by
  unfold halfUp
  rcases (Int.floor_le_floor h).lt_or_eq with hlt | heq
  · split_ifs <;> omega
  · have hfract : nearest (Int.fract p) ≤ nearest (Int.fract q) := by
      refine nearest_mono ?_
      rw [Int.fract, Int.fract, heq]
      linarith
    rw [heq]
    split_ifs <;> first | omega | linarith

theorem halfUp_zero : halfUp 0 = 0 := by
  rw [halfUp, Int.fract_zero, nearest_zero, if_pos (by norm_num), Int.floor_zero]

theorem halfUp_nonneg (h : 0 ≤ q) : 0 ≤ halfUp q := by
  have hfloor : 0 ≤ ⌊q⌋ := Int.floor_nonneg.2 h
  unfold halfUp
  split_ifs <;> omega

/-- What is below an integer is not rounded beyond it. -/
theorem halfUp_le {n : ℤ} (h : q < n) : halfUp q ≤ n := by
  have hfloor : ⌊q⌋ < n := Int.floor_lt.2 h
  unfold halfUp
  split_ifs <;> omega

/-- Rounding does not leave the numbers that have a fraction. -/
theorem abs_halfAway_le (h : |q| < 2 ^ 52) : |halfAway q| ≤ 2 ^ 52 := by
  have hbound : ∀ r : ℚ, 0 ≤ r → r < 2 ^ 52 → |(halfUp r : ℚ)| ≤ 2 ^ 52 := by
    intro r hr hlt
    have hcast : r < ((2 ^ 52 : ℤ) : ℚ) := by exact_mod_cast hlt
    rw [abs_of_nonneg (by exact_mod_cast halfUp_nonneg hr)]
    exact_mod_cast halfUp_le hcast
  rw [abs_lt] at h
  rw [halfAway, if_pos (abs_lt.2 h)]
  split_ifs with hneg
  · rw [abs_neg]
    exact hbound _ (by linarith) (by linarith)
  · exact hbound _ (not_lt.1 hneg) h.2

theorem halfAway_mono : Monotone halfAway := by
  intro p q h
  by_cases hp : |p| < 2 ^ 52
  · by_cases hq : |q| < 2 ^ 52
    · rw [halfAway, halfAway, if_pos hp, if_pos hq]
      split_ifs with hpneg hqneg hqneg
      · exact neg_le_neg (by exact_mod_cast halfUp_mono (neg_le_neg h))
      · have hleft := halfUp_nonneg (neg_nonneg.2 hpneg.le)
        have hright := halfUp_nonneg (not_lt.1 hqneg)
        exact_mod_cast (neg_nonpos.2 hleft).trans hright
      · linarith
      · exact_mod_cast halfUp_mono h
    · -- the greater number is whole and above all that have a fraction
      have hrounded := (abs_le.1 (abs_halfAway_le hp)).2
      rw [abs_lt] at hp
      rw [halfAway.eq_1 q, if_neg hq]
      have hpos : 0 ≤ q := by
        by_contra hneg
        exact hq (abs_lt.2 ⟨by linarith, by linarith⟩)
      rw [abs_of_nonneg hpos, not_lt] at hq
      exact hrounded.trans hq
  · by_cases hq : |q| < 2 ^ 52
    · -- the smaller number is whole and below all that have a fraction
      have hrounded := (abs_le.1 (abs_halfAway_le hq)).1
      rw [abs_lt] at hq
      rw [halfAway.eq_1 p, if_neg hp]
      have hneg : p ≤ 0 := by
        by_contra hpos
        exact hp (abs_lt.2 ⟨by linarith, by linarith⟩)
      rw [abs_of_nonpos hneg, not_lt] at hp
      linarith
    · rwa [halfAway, halfAway, if_neg hp, if_neg hq]

end HalfAway

section RoundHalfAway

variable {x y : Float}

theorem value_zero : value 0.0 = 0 :=
  rfl

/-- The value of a positive float is its mantissa times its power of two. -/
theorem value_of_positive {m : ℕ} {e : ℤ} {hm : 0 < m}
    (hx : x.toModel.unpack = .finite .positive m e hm) : value x = m * 2 ^ e := by
  rw [value, hx, unpackedValue, signFactor, one_mul]

theorem value_half : value 0.5 = 1 / 2 := by
  have hunpack : (0.5 : Float).toModel.unpack =
      .finite .positive 4503599627370496 (-53) (by decide) := rfl
  rw [value_of_positive hunpack]
  norm_num

theorem value_ten : value 10.0 = 10 := by
  have hunpack : (10.0 : Float).toModel.unpack =
      .finite .positive 5629499534213120 (-49) (by decide) := rfl
  rw [value_of_positive hunpack]
  norm_num

theorem value_wholeFrom : value wholeFrom = 2 ^ 52 := by
  have hunpack : wholeFrom.toModel.unpack =
      .finite .positive 4503599627370496 0 (by decide) := rfl
  rw [value_of_positive hunpack]
  norm_num

/-- A number in range is finite. -/
theorem isFinite_of_abs_lt (hx : x.isNaN = false) (h : |value x| < outOfRange) :
    x.isFinite = true := by
  refine (isFinite_or hx).resolve_right fun ⟨s, hs⟩ => ?_
  rw [value_of_infinity hs, abs_signFactor_mul s outOfRange_pos.le] at h
  exact lt_irrefl _ h

/-- Integers of at most 53 bits are represented exactly. -/
theorem value_toFloat_of_lt {n : UInt64} (h : n.toNat < 2 ^ 53) : value n.toFloat = n.toNat :=
  (value_toFloat n).trans (nearest_natCast h)

/-- Magnitudes that have a fraction are rounded with a half going up. -/
theorem value_roundMagnitude (hx : x.isFinite = true) (h : 0 ≤ value x) (hlt : value x < 2 ^ 52) :
    value (roundMagnitude x) = halfUp (value x) := by
  have hwhole : (x.toUInt64.toNat : ℤ) = ⌊value x⌋ := toNat_toUInt64 h (by linarith)
  -- so small a whole part is converted back exactly, and so is its successor
  have hsmall : x.toUInt64.toNat < 2 ^ 52 := by
    have hfloor : ⌊value x⌋ < 2 ^ 52 := Int.floor_lt.2 (by exact_mod_cast hlt)
    omega
  have hvalue : value x.toUInt64.toFloat = ⌊value x⌋ := by
    rw [value_toFloat_of_lt (by omega), ← hwhole, Int.cast_natCast]
  have hnext : value (x.toUInt64 + 1).toFloat = (⌊value x⌋ + 1 : ℤ) := by
    have hadd : (x.toUInt64 + 1).toNat = x.toUInt64.toNat + 1 := by
      rw [UInt64.toNat_add]
      change (x.toUInt64.toNat + 1) % 2 ^ 64 = _
      omega
    rw [value_toFloat_of_lt (by omega), hadd, ← hwhole]
    push_cast
    rfl
  have hfinite : x.toUInt64.toFloat.isFinite = true := by
    refine isFinite_of_abs_lt (isNaN_toFloat _) ?_
    rw [value_toFloat_of_lt (by omega), Nat.abs_cast]
    calc (x.toUInt64.toNat : ℚ) < 2 ^ (52 : ℤ) := by exact_mod_cast hsmall
      _ ≤ outOfRange := two_zpow_le_outOfRange (by norm_num)
  have hfraction : x - x.toUInt64.toFloat < 0.5 ↔ nearest (Int.fract (value x)) < 1 / 2 := by
    rw [lt_iff_value_lt (isNaN_sub (isNaN_of_isFinite hx) hfinite) rfl, value_half,
      value_sub hx hfinite, hvalue]
    rfl
  unfold roundMagnitude halfUp
  dsimp only
  by_cases hfract : nearest (Int.fract (value x)) < 1 / 2
  · rw [if_pos (hfraction.2 hfract), if_pos hfract, hvalue]
  · rw [if_neg (mt hfraction.1 hfract), if_neg hfract, hnext]

/-- Rounding to a whole number rounds the value. -/
theorem value_roundHalfAway (hx : x.isNaN = false) :
    value (roundHalfAway x) = halfAway (value x) := by
  have hsmall : x.abs < wholeFrom ↔ |value x| < 2 ^ 52 := by
    rw [lt_iff_value_lt (isNaN_abs hx) rfl, value_abs, value_wholeFrom]
  have hneg : x < 0.0 ↔ value x < 0 := by rw [lt_iff_value_lt hx rfl, value_zero]
  have hpos : x > 0.0 ↔ 0 < value x := (lt_iff_value_lt rfl hx).trans (by rw [value_zero])
  unfold roundHalfAway halfAway
  by_cases hlt : |value x| < 2 ^ 52
  -- from 2 ^ 52 on every float is whole; below, the rounding is an addition and a truncation
  · have hfinite : x.isFinite = true := by
      refine isFinite_of_abs_lt hx (hlt.trans_le ?_)
      rw [← zpow_natCast]
      exact two_zpow_le_outOfRange (by norm_num)
    rw [if_pos (hsmall.2 hlt), if_pos hlt]
    rw [abs_lt] at hlt
    rcases lt_trichotomy (value x) 0 with h | h | h
    · have hfinite' : (-x).isFinite = true :=
        isFinite_of_abs_lt (isNaN_neg hx) (by rw [value_neg, abs_neg]; exact abs_value_lt hfinite)
      rw [if_pos (hneg.2 h), if_pos h, value_neg,
        value_roundMagnitude hfinite' (by rw [value_neg]; linarith) (by rw [value_neg]; linarith),
        value_neg]
    · rw [if_neg (mt hneg.1 h.not_lt), if_neg (mt hpos.1 h.not_gt), h, if_neg (lt_irrefl _),
        halfUp_zero, Int.cast_zero]
    · rw [if_neg (mt hneg.1 h.not_gt), if_pos (hpos.2 h), if_neg h.not_gt,
        value_roundMagnitude hfinite h.le hlt.2]
  · rw [if_neg (mt hsmall.1 hlt), if_neg hlt]

theorem isNaN_roundHalfAway (hx : x.isNaN = false) : (roundHalfAway x).isNaN = false := by
  have hmagnitude : ∀ z : Float, (roundMagnitude z).isNaN = false := by
    intro z
    unfold roundMagnitude
    dsimp only
    split <;> exact isNaN_toFloat _
  unfold roundHalfAway
  split_ifs
  · exact isNaN_neg (hmagnitude _)
  · exact hmagnitude _
  · exact hx
  · exact hx

end RoundHalfAway

/-! ### Decimals -/

/-- The powers of ten up to the tenth are positive finite numbers. -/
theorem powerOfTen_pos {d : ℕ} (hd : d ≤ 10) :
    (powerOfTen (Int.bmod d (Nat.pow 2 32))).isFinite = true ∧
      0 < value (powerOfTen (Int.bmod d (Nat.pow 2 32))) := by
  have hall : ∀ d : ℕ, d < 11 → (powerOfTen (Int.bmod d (Nat.pow 2 32))).isFinite = true ∧
      0.0 < powerOfTen (Int.bmod d (Nat.pow 2 32)) := by
    decide +kernel
  obtain ⟨hfinite, hpos⟩ := hall d (Nat.lt_succ_of_le hd)
  rw [lt_iff_value_lt rfl (isNaN_of_isFinite hfinite), value_zero] at hpos
  exact ⟨hfinite, hpos⟩

/-- A number is rounded to a number at any of the places that a node can ask for. -/
theorem isNaN_roundTo {d : ℕ} (hd : d ≤ 10) {x : Float} (hx : x.isNaN = false) :
    (roundTo x d).isNaN = false := by
  obtain ⟨hfinite, hpos⟩ := powerOfTen_pos hd
  exact isNaN_div_factor hfinite hpos (isNaN_roundHalfAway (isNaN_mul_factor hfinite hpos hx))

/-- Rounding to decimals keeps the order. -/
theorem roundTo_le_roundTo {d : ℕ} (hd : d ≤ 10) {x y : Float} (hx : x.isNaN = false)
    (hy : y.isNaN = false) (h : x ≤ y) : roundTo x d ≤ roundTo y d := by
  obtain ⟨hfinite, hpos⟩ := powerOfTen_pos hd
  have hxm := isNaN_mul_factor hfinite hpos hx
  have hym := isNaN_mul_factor hfinite hpos hy
  rw [le_iff_value_le (isNaN_roundTo hd hx) (isNaN_roundTo hd hy)]
  refine value_div_mono hfinite hpos (isNaN_roundHalfAway hxm) (isNaN_roundHalfAway hym) ?_
  rw [value_roundHalfAway hxm, value_roundHalfAway hym]
  exact halfAway_mono (value_mul_mono hfinite hpos hx hy ((le_iff_value_le hx hy).1 h))

end SignalGraph.Decimal
