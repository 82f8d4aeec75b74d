import Mathlib.Data.Int.Basic
import SignalGraph.Calendar.Moment

/-!
# Milliseconds between moments

Moments that are reached from one start by adding milliseconds are as many milliseconds apart as the
numbers added (`Moment.millisSince_addMillis`), unless the earlier one lies in a leap second: then
they may seem to be closer by up to a second, but never further apart
(`Moment.nanosSince_addMillis_bounds`). Outside leap seconds, addition is linear in the nanoseconds
since 1970 (`Moment.stamp`). A leap second is left at most once, and its length is lost then.
-/

namespace SignalGraph

namespace Moment

/-- The nanoseconds since 1970; those in a leap second count on top. -/
def stamp (m : Moment) : Int :=
  (m.day * secondsPerDay + m.time.second) * nanosPerSecond + m.time.nanos

/-- A difference is one of stamps, but a leap second may count. -/
theorem nanosSince_eq (m earlier : Moment) :
    m.nanosSince earlier = m.stamp - earlier.stamp +
      (if earlier.time.second < m.time.second ∧ earlier.time.isLeap then (nanosPerSecond : Int)
        else if m.time.second < earlier.time.second ∧ m.time.isLeap then -(nanosPerSecond : Int)
        else 0) := by
  unfold nanosSince stamp nanosPerSecond secondsPerDay
  dsimp only
  split_ifs <;> omega

theorem stamp_normalize (day second nanos : Int) :
    (normalize day second nanos).stamp =
      (day * secondsPerDay + second) * nanosPerSecond + nanos := by
  unfold normalize stamp
  dsimp only
  have hnanos := Int.mul_fdiv_add_fmod nanos nanosPerSecond
  have hnanos' : 0 ≤ nanos.fmod nanosPerSecond := Int.fmod_nonneg_of_pos _ (by decide)
  generalize nanos.fdiv nanosPerSecond = carry at hnanos ⊢
  have hsecond := Int.mul_fdiv_add_fmod (second + carry) secondsPerDay
  have hsecond' : 0 ≤ (second + carry).fmod secondsPerDay := Int.fmod_nonneg_of_pos _ (by decide)
  generalize (second + carry).fdiv secondsPerDay = days at hsecond ⊢
  unfold nanosPerSecond secondsPerDay at *
  omega

theorem isLeap_normalize (day second nanos : Int) :
    (normalize day second nanos).time.isLeap = false := by
  have hlt : nanos.fmod 1000000000 < 1000000000 := Int.fmod_lt_of_pos _ (by decide)
  have hnonneg : 0 ≤ nanos.fmod 1000000000 := Int.fmod_nonneg_of_pos _ (by decide)
  unfold normalize TimeOfDay.isLeap nanosPerSecond
  simp
  omega

/-! ### Adding milliseconds -/

variable {m : Moment}

/-- Whether so many milliseconds lead out of a leap second. -/
def Leaves (m : Moment) (millis : Nat) : Prop :=
  1000 ≤ millis ∨ (0 < millis ∧ 2 * nanosPerSecond ≤ m.time.nanos + millis * nanosPerMilli)

theorem Leaves.mono {a b : Nat} (h : m.Leaves a) (hab : a ≤ b) : m.Leaves b := by
  unfold Leaves nanosPerSecond nanosPerMilli at h ⊢
  omega

/-- Whole seconds and the milliseconds beyond them. -/
theorem split_millis (millis : Nat) :
    1000 * (millis : Int).tdiv 1000 + (millis : Int).tmod 1000 = millis ∧
    0 ≤ (millis : Int).tmod 1000 ∧ (millis : Int).tmod 1000 < 1000 :=
  ⟨Int.mul_tdiv_add_tmod .., Int.tmod_nonneg _ (Int.natCast_nonneg millis),
    Int.tmod_lt_of_pos _ (by decide)⟩

/-- Outside a leap second, milliseconds are added up. -/
theorem stamp_addMillis (hm : m.time.isLeap = false) (millis : Nat) :
    (m.addMillis millis).stamp = m.stamp + millis * nanosPerMilli ∧
      (m.addMillis millis).time.isLeap = false := by
  have hadd : m.addMillis millis = normalize m.day (m.time.second + (millis : Int).tdiv 1000)
      (m.time.nanos + (millis : Int).tmod 1000 * nanosPerMilli) := by
    rw [addMillis, hm]
    rfl
  rw [hadd, stamp_normalize]
  refine ⟨?_, isLeap_normalize ..⟩
  have hsplit := split_millis millis
  unfold stamp nanosPerSecond nanosPerMilli secondsPerDay
  omega

/-- Within a leap second, milliseconds are added up as well. -/
theorem stamp_addMillis_of_stays (hm : m.time.isLeap = true) {millis : Nat}
    (h : ¬ m.Leaves millis) :
    (m.addMillis millis).stamp = m.stamp + millis * nanosPerMilli ∧
      (m.addMillis millis).time.isLeap = true ∧
      (m.addMillis millis).time.second = m.time.second := by
  obtain ⟨hsum, hfraction, hlt⟩ := split_millis millis
  unfold Leaves at h
  have hseconds : (millis : Int).tdiv 1000 = 0 := by omega
  have hstays : ¬ (0 < (millis : Int).tdiv 1000 ∨ (0 < (millis : Int).tmod 1000 * nanosPerMilli ∧
      2 * (nanosPerSecond : Int) ≤ m.time.nanos + (millis : Int).tmod 1000 * nanosPerMilli)) := by
    unfold nanosPerSecond nanosPerMilli at *
    omega
  obtain ⟨nanos, hnanos, hadd⟩ : ∃ nanos : Nat,
      (nanos : Int) = m.time.nanos + millis * nanosPerMilli ∧
      m.addMillis millis = ⟨m.day, ⟨m.time.second, nanos⟩⟩ := by
    refine ⟨(m.time.nanos + (millis : Int).tmod 1000 * nanosPerMilli).toNat, ?_, ?_⟩
    · unfold nanosPerMilli
      omega
    · rw [addMillis, if_pos hm]
      rw [if_neg hstays, if_neg (by omega)]
  rw [hadd]
  refine ⟨?_, ?_, rfl⟩
  · unfold stamp
    rw [Int.add_assoc, ← hnanos]
  · rw [TimeOfDay.isLeap, decide_eq_true_eq] at hm ⊢
    unfold nanosPerMilli at hnanos
    dsimp only
    omega

/-- A leap second is not counted any more once it has been left. -/
theorem stamp_addMillis_of_leaves (hm : m.time.isLeap = true) {millis : Nat} (h : m.Leaves millis) :
    (m.addMillis millis).stamp = m.stamp + millis * nanosPerMilli - nanosPerSecond ∧
      (m.addMillis millis).time.isLeap = false := by
  obtain ⟨hsum, hfraction, hlt⟩ := split_millis millis
  unfold Leaves at h
  have hleaves : 0 < (millis : Int).tdiv 1000 ∨ (0 < (millis : Int).tmod 1000 * nanosPerMilli ∧
      2 * (nanosPerSecond : Int) ≤ m.time.nanos + (millis : Int).tmod 1000 * nanosPerMilli) := by
    unfold nanosPerSecond nanosPerMilli at *
    omega
  have hadd : m.addMillis millis = normalize m.day (m.time.second + (millis : Int).tdiv 1000)
      (m.time.nanos - nanosPerSecond + (millis : Int).tmod 1000 * nanosPerMilli) := by
    rw [addMillis, if_pos hm]
    rw [if_pos hleaves]
  rw [hadd, stamp_normalize]
  refine ⟨?_, isLeap_normalize ..⟩
  unfold stamp nanosPerSecond nanosPerMilli secondsPerDay
  omega

/-! ### Milliseconds between two moments -/

/-- Moments outside leap seconds are as far apart as the milliseconds added say. -/
theorem nanosSince_addMillis {a b : Nat} (hab : a ≤ b)
    (ha : (m.addMillis a).time.isLeap = false) :
    (m.addMillis b).nanosSince (m.addMillis a) = (b - a : Nat) * (nanosPerMilli : Int) := by
  have hstamps : (m.addMillis b).stamp - (m.addMillis a).stamp =
        (b - a : Nat) * (nanosPerMilli : Int) ∧
      (m.addMillis b).time.isLeap = false := by
    cases hm : m.time.isLeap with
    | false =>
      have hfrom := stamp_addMillis hm a
      have hto := stamp_addMillis hm b
      refine ⟨?_, hto.2⟩
      unfold nanosPerMilli at *
      omega
    | true =>
      -- the leap second has been left before
      have hleaves : m.Leaves a := by
        by_contra hstays
        cases ha.symm.trans (stamp_addMillis_of_stays hm hstays).2.1
      have hfrom := stamp_addMillis_of_leaves hm hleaves
      have hto := stamp_addMillis_of_leaves hm (hleaves.mono hab)
      refine ⟨?_, hto.2⟩
      unfold nanosPerMilli at *
      omega
  rw [nanosSince_eq, ha, hstamps.2, hstamps.1, if_neg (by simp), if_neg (by simp), Int.add_zero]

theorem millisSince_addMillis {a b : Nat} (hab : a ≤ b)
    (ha : (m.addMillis a).time.isLeap = false) :
    (m.addMillis b).millisSince (m.addMillis a) = b - a := by
  have hnanos : ((m.addMillis b).nanosSince (m.addMillis a)).toNat = (b - a) * nanosPerMilli := by
    rw [nanosSince_addMillis hab ha, ← Int.natCast_mul, Int.toNat_natCast]
  rw [millisSince, hnanos, Nat.mul_div_cancel _ (by decide)]

/-- The length of a leap second that has been left may be missing between two moments, and no
more. -/
theorem nanosSince_addMillis_bounds {a b : Nat} (hab : a ≤ b) :
    (b - a : Nat) * (nanosPerMilli : Int) - nanosPerSecond ≤
        (m.addMillis b).nanosSince (m.addMillis a) ∧
      (m.addMillis b).nanosSince (m.addMillis a) ≤ (b - a : Nat) * (nanosPerMilli : Int) := by
  cases ha : (m.addMillis a).time.isLeap with
  | false =>
    rw [nanosSince_addMillis hab ha]
    unfold nanosPerSecond nanosPerMilli
    omega
  | true =>
    have hm : m.time.isLeap = true := by
      by_contra hm
      cases ha.symm.trans (stamp_addMillis (Bool.eq_false_iff.2 hm) a).2
    have hstays : ¬ m.Leaves a := by
      intro hleaves
      cases ha.symm.trans (stamp_addMillis_of_leaves hm hleaves).2
    obtain ⟨hfrom, -, hsecond⟩ := stamp_addMillis_of_stays hm hstays
    rw [nanosSince_eq, hfrom]
    by_cases hleaves : m.Leaves b
    · -- the leap second counts once at most, and its length has been lost
      obtain ⟨hto, hleap⟩ := stamp_addMillis_of_leaves hm hleaves
      rw [hto, hleap, if_neg (c := _ ∧ false = true) (by simp)]
      unfold nanosPerSecond nanosPerMilli
      split_ifs <;> omega
    · obtain ⟨hto, -, hsecond'⟩ := stamp_addMillis_of_stays hm hleaves
      rw [hto, hsecond, hsecond', if_neg (by simp), if_neg (by simp)]
      unfold nanosPerSecond nanosPerMilli
      omega

/-- Moments never seem to be further apart than the milliseconds added say. -/
theorem millisSince_addMillis_le {a b : Nat} (hab : a ≤ b) :
    (m.addMillis b).millisSince (m.addMillis a) ≤ b - a := by
  obtain ⟨-, hle⟩ := nanosSince_addMillis_bounds (m := m) hab
  unfold millisSince
  refine Nat.div_le_of_le_mul ?_
  unfold nanosPerMilli at hle ⊢
  omega

/-- Moments never seem to be closer than the milliseconds added say by more than a second. -/
theorem le_millisSince_addMillis {a b : Nat} (hab : a ≤ b) :
    b - a ≤ (m.addMillis b).millisSince (m.addMillis a) + 1000 := by
  obtain ⟨hle, -⟩ := nanosSince_addMillis_bounds (m := m) hab
  unfold millisSince
  refine Nat.le_add_of_sub_le ((Nat.le_div_iff_mul_le (by decide)).2 ?_)
  unfold nanosPerMilli nanosPerSecond at *
  omega

end Moment

end SignalGraph
