import Mathlib

/-!
# Rounding rational numbers to binary64

`nearest q` is the binary64 number nearest to the rational number `q`, where `2 ^ 1024` stands for
infinity. It keeps 53 binary digits, or fewer if the last one would lie below `2 ^ (-1074)`, and of
two equally near numbers it is the one with an even last digit. Rounding keeps the order
(`nearest_mono`) and leaves small whole numbers alone (`nearest_natCast`).
-/

namespace SignalGraph.Decimal

/-! ### The nearest whole number -/

/-- The whole number nearest to `q`, of two equally near ones the even one. -/
def nearestEven (q : ℚ) : ℤ :=
  if Int.fract q < 1 / 2 then ⌊q⌋
  else if Int.fract q = 1 / 2 then ⌊q⌋ + ⌊q⌋ % 2
  else ⌊q⌋ + 1

theorem floor_le_nearestEven (q : ℚ) : ⌊q⌋ ≤ nearestEven q := by
  unfold nearestEven
  split_ifs <;> omega

theorem nearestEven_le_floor_add_one (q : ℚ) : nearestEven q ≤ ⌊q⌋ + 1 := by
  unfold nearestEven
  split_ifs <;> omega

theorem nearestEven_intCast (n : ℤ) : nearestEven n = n := by
  rw [nearestEven, Int.fract_intCast, Int.floor_intCast, if_pos (by norm_num)]

theorem nearestEven_mono {p q : ℚ} (h : p ≤ q) : nearestEven p ≤ nearestEven q := by
  rcases (Int.floor_le_floor h).lt_or_eq with hlt | heq
  · calc nearestEven p ≤ ⌊p⌋ + 1 := nearestEven_le_floor_add_one p
      _ ≤ ⌊q⌋ := hlt
      _ ≤ nearestEven q := floor_le_nearestEven q
  · -- between the same whole numbers the fractions decide
    have hfract : Int.fract p ≤ Int.fract q := by
      rw [Int.fract, Int.fract, heq]
      linarith
    unfold nearestEven
    rw [heq]
    split_ifs <;> first | omega | grind

/-! ### Keeping 53 digits -/

/-- The exponent of the last binary digit that is kept of a positive number. -/
def lastExponent (q : ℚ) : ℤ :=
  max (Int.log 2 q - 52) (-1074)

/-- A number that is not negative, rounded to its last digit. -/
def keepDigits (q : ℚ) : ℚ :=
  nearestEven (q / 2 ^ lastExponent q) * 2 ^ lastExponent q

section KeepDigits

variable {p q : ℚ}

theorem two_zpow_pos (e : ℤ) : (0 : ℚ) < 2 ^ e :=
  zpow_pos two_pos e

/-- A power of two is a whole multiple of each smaller one. -/
theorem exists_two_zpow_eq {e k : ℤ} (h : e ≤ k) : ∃ n : ℤ, (2 : ℚ) ^ k = n * 2 ^ e := by
  obtain ⟨n, rfl⟩ := Int.le.dest h
  refine ⟨2 ^ n, ?_⟩
  rw [zpow_add₀ two_ne_zero, zpow_natCast, mul_comm]
  norm_cast

theorem keepDigits_nonneg (h : 0 ≤ q) : 0 ≤ keepDigits q := by
  have hfloor : 0 ≤ ⌊q / 2 ^ lastExponent q⌋ :=
    Int.floor_nonneg.2 (div_nonneg h (two_zpow_pos _).le)
  have hnearest : (0 : ℚ) ≤ nearestEven (q / 2 ^ lastExponent q) := by
    exact_mod_cast hfloor.trans (floor_le_nearestEven _)
  exact mul_nonneg hnearest (two_zpow_pos _).le

/-- A number below a power of two is not rounded beyond it. -/
theorem keepDigits_le {k : ℤ} (h : q ≤ 2 ^ k) (hk : lastExponent q ≤ k) :
    keepDigits q ≤ 2 ^ k := by
  obtain ⟨n, hpower⟩ := exists_two_zpow_eq hk
  rw [hpower, keepDigits]
  refine mul_le_mul_of_nonneg_right ?_ (two_zpow_pos _).le
  rw [hpower, ← div_le_iff₀ (two_zpow_pos _)] at h
  exact_mod_cast (nearestEven_mono h).trans_eq (nearestEven_intCast _)

/-- A number from a power of two on is not rounded below it. -/
theorem le_keepDigits {k : ℤ} (h : 2 ^ k ≤ q) (hk : lastExponent q ≤ k) :
    2 ^ k ≤ keepDigits q := by
  obtain ⟨n, hpower⟩ := exists_two_zpow_eq hk
  rw [hpower, keepDigits]
  refine mul_le_mul_of_nonneg_right ?_ (two_zpow_pos _).le
  rw [hpower, ← le_div_iff₀ (two_zpow_pos _)] at h
  exact_mod_cast (nearestEven_intCast _).symm.trans_le (nearestEven_mono h)

theorem keepDigits_mono (hp : 0 < p) (h : p ≤ q) : keepDigits p ≤ keepDigits q := by
  have hq : 0 < q := hp.trans_le h
  have hlog : Int.log 2 p ≤ Int.log 2 q := Int.log_mono_right hp h
  by_cases heq : lastExponent p = lastExponent q
  · rw [keepDigits, keepDigits, heq]
    refine mul_le_mul_of_nonneg_right ?_ (two_zpow_pos _).le
    exact_mod_cast nearestEven_mono (div_le_div_of_nonneg_right h (two_zpow_pos _).le)
  · -- the leading power of two of the greater number lies between the rounded ones
    have hexponent : lastExponent p < Int.log 2 q ∧ lastExponent q ≤ Int.log 2 q ∧
        Int.log 2 p < Int.log 2 q := by
      unfold lastExponent at *
      omega
    have hbelow : p ≤ 2 ^ Int.log 2 q := by
      have hlt : p < 2 ^ (Int.log 2 p + 1) := by
        exact_mod_cast Int.lt_zpow_succ_log_self Nat.one_lt_two p
      exact hlt.le.trans (zpow_le_zpow_right₀ one_le_two (by omega))
    have habove : 2 ^ Int.log 2 q ≤ q := by
      exact_mod_cast Int.zpow_log_le_self Nat.one_lt_two hq
    exact (keepDigits_le hbelow hexponent.1.le).trans (le_keepDigits habove hexponent.2.1)

end KeepDigits

/-! ### The nearest binary64 number -/

/-- The least power of two that is out of range; it stands for infinity. -/
@[irreducible]
def outOfRange : ℚ :=
  2 ^ (1024 : ℤ)

theorem two_zpow_le_outOfRange {k : ℤ} (h : k ≤ 1024) : (2 : ℚ) ^ k ≤ outOfRange := by
  rw [outOfRange]
  exact zpow_le_zpow_right₀ one_le_two h

theorem outOfRange_pos : 0 < outOfRange :=
  (two_zpow_pos 0).trans_le (two_zpow_le_outOfRange (by norm_num))

/-- The binary64 number nearest to `q`. -/
def nearest (q : ℚ) : ℚ :=
  if q < 0 then -min (keepDigits (-q)) outOfRange else min (keepDigits q) outOfRange

section Nearest

variable {p q : ℚ}

theorem nearest_of_nonneg (h : 0 ≤ q) : nearest q = min (keepDigits q) outOfRange :=
  if_neg h.not_gt

theorem nearest_zero : nearest 0 = 0 := by
  rw [nearest_of_nonneg le_rfl, keepDigits, zero_div, ← Int.cast_zero, nearestEven_intCast,
    Int.cast_zero, zero_mul, min_eq_left outOfRange_pos.le]

theorem nearest_neg (q : ℚ) : nearest (-q) = -nearest q := by
  rcases lt_trichotomy q 0 with h | rfl | h
  · rw [nearest_of_nonneg (neg_nonneg.2 h.le), nearest, if_pos h, neg_neg]
  · rw [neg_zero, nearest_zero, neg_zero]
  · rw [nearest_of_nonneg h.le, nearest, if_pos (neg_neg_iff_pos.2 h), neg_neg]

theorem nearest_nonneg (h : 0 ≤ q) : 0 ≤ nearest q := by
  rw [nearest_of_nonneg h]
  exact le_min (keepDigits_nonneg h) outOfRange_pos.le

/-- Rounding keeps the order of positive numbers. -/
theorem nearest_mono_of_pos (hp : 0 < p) (h : p ≤ q) : nearest p ≤ nearest q := by
  rw [nearest_of_nonneg hp.le, nearest_of_nonneg (hp.le.trans h)]
  exact min_le_min_right _ (keepDigits_mono hp h)

/-- Rounding keeps the order. -/
theorem nearest_mono : Monotone nearest := by
  intro p q h
  rcases lt_or_ge 0 p with hp | hp
  · exact nearest_mono_of_pos hp h
  · rcases lt_or_ge q 0 with hq | hq
    · -- negative numbers are rounded like their magnitudes
      have hneg : nearest (-q) ≤ nearest (-p) :=
        nearest_mono_of_pos (neg_pos.2 hq) (neg_le_neg h)
      rwa [nearest_neg, nearest_neg, neg_le_neg_iff] at hneg
    · have hneg : 0 ≤ nearest (-p) := nearest_nonneg (neg_nonneg.2 hp)
      rw [nearest_neg, neg_nonneg] at hneg
      exact hneg.trans (nearest_nonneg hq)

/-- A number with at most 53 binary digits, none of them too small, is not changed. -/
theorem nearest_exact {m : ℕ} {e : ℤ} (hm : m < 2 ^ 53) (he : -1074 ≤ e)
    (hrange : (m : ℚ) * 2 ^ e ≤ outOfRange) : nearest (m * 2 ^ e) = m * 2 ^ e := by
  rcases Nat.eq_zero_or_pos m with rfl | hpos
  · rw [Nat.cast_zero, zero_mul, nearest_zero]
  have hq : (0 : ℚ) < m * 2 ^ e := mul_pos (Nat.cast_pos.2 hpos) (two_zpow_pos e)
  have hlog : Int.log 2 ((m : ℚ) * 2 ^ e) < 53 + e := by
    refine (Int.lt_zpow_iff_log_lt Nat.one_lt_two hq).1 ?_
    rw [Nat.cast_two, zpow_add₀ two_ne_zero]
    exact mul_lt_mul_of_pos_right (by exact_mod_cast hm) (two_zpow_pos e)
  have hlast : lastExponent (m * 2 ^ e) ≤ e := by
    unfold lastExponent
    omega
  -- the number is a whole multiple of its last digit
  obtain ⟨n, hpower⟩ := exists_two_zpow_eq hlast
  have hwhole : (m : ℚ) * 2 ^ e / 2 ^ lastExponent (m * 2 ^ e) = ((m * n : ℤ) : ℚ) := by
    rw [div_eq_iff (two_zpow_pos _).ne']
    conv_lhs => rw [hpower]
    push_cast
    ring
  rw [nearest_of_nonneg hq.le, keepDigits, hwhole, nearestEven_intCast, ← hwhole,
    div_mul_cancel₀ _ (two_zpow_pos _).ne', min_eq_left hrange]

/-- A whole number of at most 53 binary digits is not changed. -/
theorem nearest_natCast {n : ℕ} (h : n < 2 ^ 53) : nearest n = n := by
  have hrange : (n : ℚ) * 2 ^ (0 : ℤ) ≤ outOfRange := by
    rw [zpow_zero, mul_one]
    calc (n : ℚ) ≤ 2 ^ (53 : ℤ) := by exact_mod_cast h.le
      _ ≤ outOfRange := two_zpow_le_outOfRange (by norm_num)
  have hexact := nearest_exact h (by norm_num) hrange
  rwa [zpow_zero, mul_one] at hexact

end Nearest

end SignalGraph.Decimal
