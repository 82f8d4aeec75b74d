import SignalGraph.Proofs.Calendar.Moment

/-!
# The next full minute

Outside leap seconds, the number of milliseconds until the next full minute is rounded up: so many
milliseconds later the minute has begun less than a millisecond ago
(`Moment.addMillis_untilNextMinute`).
-/

namespace SignalGraph

namespace Moment

variable {m : Moment}

/-- The first full minute after a moment outside leap seconds. -/
structure NextMinute (m minute : Moment) : Prop where
  second_mod : minute.time.second % 60 = 0
  nanos_eq : minute.time.nanos = 0
  lt : m.stamp < minute.stamp
  le : minute.stamp ≤ m.stamp + 60 * nanosPerSecond

/-- The moment lies in the millisecond that begins at `start`. -/
structure Begins (start m : Moment) : Prop where
  day_eq : m.day = start.day
  second_eq : m.time.second = start.time.second
  le : start.time.nanos ≤ m.time.nanos
  lt : m.time.nanos < start.time.nanos + nanosPerMilli

/-- The full minute after the minute that a moment lies in. -/
def nextMinute (m : Moment) : Moment :=
  normalize m.day (m.time.second - m.time.second % 60 + 60) 0

theorem untilNextMinute_bounds (m : Moment) :
    1 ≤ m.untilNextMinute ∧ m.untilNextMinute ≤ 60000 := by
  unfold untilNextMinute nanosPerMilli
  omega

/-- A moment depends on the nanoseconds in total only. -/
theorem normalize_congr (day : Int) {second nanos second' nanos' : Int}
    (h : second * nanosPerSecond + nanos = second' * nanosPerSecond + nanos') :
    normalize day second nanos = normalize day second' nanos' := by
  have hsecond : second + nanos.fdiv nanosPerSecond = second' + nanos'.fdiv nanosPerSecond := by
    rw [Int.fdiv_eq_ediv_of_nonneg _ (by decide), Int.fdiv_eq_ediv_of_nonneg _ (by decide)]
    unfold nanosPerSecond at *
    omega
  have hnanos : nanos.fmod nanosPerSecond = nanos'.fmod nanosPerSecond := by
    rw [Int.fmod_eq_emod_of_nonneg _ (by decide), Int.fmod_eq_emod_of_nonneg _ (by decide)]
    unfold nanosPerSecond at *
    omega
  unfold normalize
  dsimp only
  rw [hsecond, hnanos]

/-- Nanoseconds within a second are kept. -/
theorem normalize_of_lt (day second : Int) {nanos : Nat} (h : nanos < nanosPerSecond) :
    normalize day second nanos =
      ⟨(normalize day second 0).day, ⟨(normalize day second 0).time.second, nanos⟩⟩ := by
  have hdiv : (nanos : Int).fdiv nanosPerSecond = 0 := by
    rw [Int.fdiv_eq_ediv_of_nonneg _ (by decide)]
    unfold nanosPerSecond at *
    omega
  have hmod : (nanos : Int).fmod nanosPerSecond = nanos := by
    rw [Int.fmod_eq_emod_of_nonneg _ (by decide)]
    unfold nanosPerSecond at *
    omega
  unfold normalize
  dsimp only
  rw [hdiv, hmod]
  rfl

theorem nextMinute_spec (hm : m.time.isLeap = false) : m.NextMinute m.nextMinute := by
  have hnanos : m.time.nanos < nanosPerSecond := by
    unfold TimeOfDay.isLeap at hm
    simpa using hm
  have hstamp : m.nextMinute.stamp =
      (m.day * secondsPerDay + (m.time.second - m.time.second % 60 + 60)) * nanosPerSecond + 0 :=
    stamp_normalize ..
  refine ⟨?_, rfl, ?_, ?_⟩
  · -- a day has a whole number of minutes
    unfold nextMinute normalize
    dsimp only
    rw [Int.fmod_eq_emod_of_nonneg _ (by decide), Int.zero_fdiv]
    unfold secondsPerDay
    omega
  · rw [hstamp]
    unfold stamp nanosPerSecond secondsPerDay at *
    omega
  · rw [hstamp]
    unfold stamp nanosPerSecond secondsPerDay at *
    omega

/-- Outside leap seconds, the next full minute has begun less than a millisecond ago when the
milliseconds until then have passed. -/
theorem addMillis_untilNextMinute (hm : m.time.isLeap = false) :
    m.nextMinute.Begins (m.addMillis m.untilNextMinute) := by
  obtain ⟨hsum, hfraction, hlt⟩ := split_millis m.untilNextMinute
  have hnanos : m.time.nanos < nanosPerSecond := by
    unfold TimeOfDay.isLeap at hm
    simpa using hm
  have hrest : m.time.nanos % nanosPerMilli < nanosPerSecond := by
    unfold nanosPerMilli nanosPerSecond
    omega
  -- what is missing to the minute is rounded up to milliseconds, and the rest remains
  have hadd : m.addMillis m.untilNextMinute = normalize m.day
      (m.time.second - m.time.second % 60 + 60) (m.time.nanos % nanosPerMilli : Nat) := by
    have hordinary : m.addMillis m.untilNextMinute = normalize m.day
        (m.time.second + (m.untilNextMinute : Int).tdiv 1000)
        (m.time.nanos + (m.untilNextMinute : Int).tmod 1000 * nanosPerMilli) := by
      rw [addMillis, hm]
      rfl
    rw [hordinary]
    refine normalize_congr m.day ?_
    unfold untilNextMinute nanosPerMilli nanosPerSecond at *
    omega
  rw [hadd, normalize_of_lt _ _ hrest]
  refine ⟨rfl, rfl, Nat.zero_le _, ?_⟩
  have hzero : m.nextMinute.time.nanos = 0 := rfl
  rw [hzero, Nat.zero_add]
  exact Nat.mod_lt _ (by decide)

end Moment

end SignalGraph
