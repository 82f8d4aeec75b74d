import Mathlib.Data.Prod.Lex
import Mathlib.Tactic.IntervalCases
import Mathlib.Tactic.NormNum
import SignalGraph.Calendar.Moment

/-!
# Dates and the order of moments

Moments are ordered by day, then by second, then by nanoseconds, so that a leap second comes after
the second that it extends. The number of the day of a date grows by one from each date of the
Gregorian calendar to the next, over the ends of months and years and over leap days
(`Date.day_tomorrow`). A day before a moment is reached by adding negative milliseconds, unless the
moment lies in the leap second at the very end of its day (`Moment.day_addMillis_neg_day`).
-/

namespace SignalGraph

/-! ### The order of moments -/

namespace TimeOfDay

/-- The second and the nanoseconds, to compare by. -/
def rank (t : TimeOfDay) : Nat ×ₗ Nat :=
  toLex (t.second, t.nanos)

theorem rank_injective : Function.Injective rank := by
  intro a b h
  cases a
  cases b
  simpa [rank] using h

instance : LinearOrder TimeOfDay :=
  LinearOrder.lift' rank rank_injective

theorem lt_iff {a b : TimeOfDay} :
    a < b ↔ a.second < b.second ∨ a.second = b.second ∧ a.nanos < b.nanos :=
  Prod.Lex.toLex_lt_toLex

theorem before_iff {a b : TimeOfDay} : a.before b = true ↔ a < b := by
  rw [lt_iff, before]
  simp

theorem midnight_le (t : TimeOfDay) : midnight ≤ t := by
  rw [← not_lt, lt_iff]
  simp [midnight]

/-- A clock can show this time: it lies within a day, and a leap second lasts one second. -/
structure OnClock (t : TimeOfDay) : Prop where
  second_lt : t.second < secondsPerDay
  nanos_lt : t.nanos < 2 * nanosPerSecond

/-- The time that a text writes lies within a day, and a leap second is only just reached. -/
theorem ofChars?_bounds {cs : List Char} {t : TimeOfDay} (h : ofChars? cs = some t) :
    t.second < secondsPerDay ∧ t.nanos ≤ nanosPerSecond := by
  have hclock {hour minute second : Nat} (h : ofClock? hour minute second = some t) :
      t.second < secondsPerDay ∧ t.nanos ≤ nanosPerSecond := by
    unfold ofClock? at h
    unfold secondsPerDay nanosPerSecond at *
    split_ifs at h <;> cases h <;> dsimp only <;> omega
  unfold ofChars? at h
  split at h
  · cases h
  · split at h
    · cases h
    · exact hclock h
    · split at h
      · exact hclock h
      · cases h

end TimeOfDay

namespace Moment

/-- The day and the time, to compare by. -/
def rank (m : Moment) : Int ×ₗ TimeOfDay :=
  toLex (m.day, m.time)

theorem rank_injective : Function.Injective rank := by
  intro a b h
  cases a
  cases b
  simpa [rank] using h

instance : LinearOrder Moment :=
  LinearOrder.lift' rank rank_injective

theorem lt_iff {a b : Moment} : a < b ↔ a.day < b.day ∨ a.day = b.day ∧ a.time < b.time :=
  Prod.Lex.toLex_lt_toLex

theorem le_iff {a b : Moment} : a ≤ b ↔ a.day < b.day ∨ a.day = b.day ∧ a.time ≤ b.time :=
  Prod.Lex.toLex_le_toLex

/-- Seconds outside the day lead to another day. -/
theorem day_normalize {day second nanos : Int} (hpos : 0 ≤ nanos) (hlt : nanos < nanosPerSecond) :
    (normalize day second nanos).day = day + second / secondsPerDay := by
  unfold normalize
  dsimp only
  rw [Int.fdiv_eq_ediv_of_nonneg _ (by decide), Int.fdiv_eq_ediv_of_nonneg _ (by decide),
    Int.ediv_eq_zero_of_lt hpos hlt, Int.add_zero]

/-- A day less leads to the day before, but a leap second at the end of a day is left towards the
day that follows, so that a day less leads to the start of the same day. -/
theorem day_addMillis_neg_day {m : Moment} (h : m.time.OnClock) :
    (m.addMillis (-(millisPerDay : Int))).day =
      if m.time.isLeap ∧ m.time.second + 1 = secondsPerDay then m.day else m.day - 1 := by
  obtain ⟨hsecond, hnanos⟩ := h
  unfold addMillis
  rw [show (-(millisPerDay : Int)).tdiv 1000 = -86400 by decide,
    show (-(millisPerDay : Int)).tmod 1000 * nanosPerMilli = 0 by decide]
  dsimp only
  unfold secondsPerDay nanosPerSecond at *
  cases hleap : m.time.isLeap with
  | true =>
    rw [TimeOfDay.isLeap, decide_eq_true_eq, nanosPerSecond] at hleap
    rw [if_pos rfl, if_neg (by omega), if_pos (by decide),
      day_normalize (by omega) (by unfold nanosPerSecond; omega), secondsPerDay]
    simp only [true_and]
    split_ifs <;> omega
  | false =>
    rw [TimeOfDay.isLeap, decide_eq_false_iff_not, nanosPerSecond] at hleap
    rw [if_neg (by decide), if_neg (by simp),
      day_normalize (by omega) (by unfold nanosPerSecond; omega), secondsPerDay]
    omega

theorem le_day_normalize (day : Int) {second nanos : Int} (hsecond : -secondsPerDay ≤ second)
    (hnanos : 0 ≤ nanos) : day - 1 ≤ (normalize day second nanos).day := by
  unfold normalize
  dsimp only
  rw [Int.fdiv_eq_ediv_of_nonneg _ (by decide), Int.fdiv_eq_ediv_of_nonneg _ (by decide)]
  have hcarry : 0 ≤ nanos / (nanosPerSecond : Int) := Int.ediv_nonneg hnanos (by decide)
  unfold secondsPerDay at *
  omega

/-- A day less never leads more than a day back. -/
theorem le_day_addMillis (m : Moment) : m.day - 1 ≤ (m.addMillis (-(millisPerDay : Int))).day := by
  unfold addMillis
  rw [show (-(millisPerDay : Int)).tdiv 1000 = -secondsPerDay by decide,
    show (-(millisPerDay : Int)).tmod 1000 * nanosPerMilli = 0 by decide]
  dsimp only
  cases hleap : m.time.isLeap with
  | true =>
    rw [TimeOfDay.isLeap, decide_eq_true_eq] at hleap
    rw [if_pos rfl, if_neg (by unfold secondsPerDay nanosPerSecond at *; omega),
      if_pos (by decide)]
    exact le_day_normalize _ (by omega) (by omega)
  | false =>
    rw [if_neg (by decide)]
    exact le_day_normalize _ (by omega) (by omega)

end Moment

/-! ### Dates -/

/-- Whether a year of the Gregorian calendar has a leap day. -/
def isLeapYear (year : Int) : Bool :=
  year % 4 = 0 && (year % 100 ≠ 0 || year % 400 = 0)

/-- The number of days of a month. -/
def daysInMonth (year : Int) (month : Nat) : Nat :=
  if month = 2 then if isLeapYear year then 29 else 28
  else if month = 4 ∨ month = 6 ∨ month = 9 ∨ month = 11 then 30
  else 31

theorem daysInMonth_pos (year : Int) (month : Nat) : 1 ≤ daysInMonth year month := by
  unfold daysInMonth
  split_ifs <;> decide

/-- February ends a year that is counted from March. -/
theorem dayOfDate_march (year : Int) :
    dayOfDate year 3 1 = dayOfDate year 2 (daysInMonth year 2) + 1 := by
  unfold dayOfDate daysInMonth isLeapYear
  simp only [Int.fdiv_eq_ediv_of_nonneg _ (show (0 : Int) ≤ 400 by decide)]
  norm_num
  split_ifs <;> omega

/-- The first of a month is the day after the last of the month before. -/
theorem dayOfDate_nextMonth {year : Int} {month : Nat} (hpos : 1 ≤ month) (hlt : month < 12) :
    dayOfDate year (month + 1) 1 = dayOfDate year month (daysInMonth year month) + 1 := by
  by_cases hfebruary : month = 2
  · rw [hfebruary]
    exact dayOfDate_march year
  · unfold dayOfDate daysInMonth
    interval_cases month <;> simp at hfebruary ⊢ <;> omega

/-- New Year is the day after the last of December. -/
theorem dayOfDate_newYear (year : Int) : dayOfDate (year + 1) 1 1 = dayOfDate year 12 31 + 1 := by
  unfold dayOfDate
  norm_num
  omega

/-- A date of the Gregorian calendar. -/
structure Date where
  year : Int
  month : Nat
  dayOfMonth : Nat
  month_pos : 1 ≤ month := by decide
  month_le : month ≤ 12 := by decide
  dayOfMonth_pos : 1 ≤ dayOfMonth := by decide
  dayOfMonth_le : dayOfMonth ≤ daysInMonth year month := by decide

namespace Date

/-- The days from 1970-01-01. -/
def day (d : Date) : Int :=
  dayOfDate d.year d.month d.dayOfMonth

/-- The date that follows. -/
def tomorrow (d : Date) : Date :=
  if hday : d.dayOfMonth < daysInMonth d.year d.month then
    { year := d.year, month := d.month, dayOfMonth := d.dayOfMonth + 1, month_pos := d.month_pos
      month_le := d.month_le, dayOfMonth_pos := Nat.le_add_left .., dayOfMonth_le := hday }
  else if hmonth : d.month < 12 then
    { year := d.year, month := d.month + 1, dayOfMonth := 1, month_pos := Nat.le_add_left ..
      month_le := hmonth, dayOfMonth_le := daysInMonth_pos .. }
  else { year := d.year + 1, month := 1, dayOfMonth := 1, dayOfMonth_le := daysInMonth_pos .. }

/-- The number of the day grows by one from each date to the next. -/
theorem day_tomorrow (d : Date) : d.tomorrow.day = d.day + 1 := by
  have hpos := d.dayOfMonth_pos
  have hle := d.dayOfMonth_le
  unfold tomorrow
  split_ifs with hday hmonth
  · unfold day dayOfDate
    dsimp only
    omega
  · have hlast : d.dayOfMonth = daysInMonth d.year d.month := by omega
    rw [day, day, hlast]
    exact dayOfDate_nextMonth d.month_pos hmonth
  · have hdecember : d.month = 12 := Nat.le_antisymm d.month_le (Nat.not_lt.1 hmonth)
    have hlast : d.dayOfMonth = 31 := by
      rw [hdecember] at hle hday
      exact Nat.le_antisymm hle (Nat.not_lt.1 hday)
    rw [day, day, hdecember, hlast]
    exact dayOfDate_newYear d.year

end Date

end SignalGraph
