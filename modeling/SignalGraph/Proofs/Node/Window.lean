import Mathlib.Order.Interval.Set.Defs
import SignalGraph.Proofs.Calendar.Date
import SignalGraph.Proofs.Node.Kind

/-!
# Windows of weekly schedules

The window of a day is an interval of the calendar (`WeeklySchedule.window`), which reaches into the
day that follows if the schedule closes before it opens. A schedule is on exactly within the windows
of the selected days, of which only today's and yesterday's matter
(`WeeklySchedule.isActive_iff_mem_window`). In the early half of a night the weekday of the date
before therefore decides, whether or not a month or a year has begun since.
-/

namespace SignalGraph

namespace WeeklySchedule

variable {p : Params} {s : WeeklySchedule} {now : Moment} {holiday : Bool}

/-! ### Windows -/

/-- The time during which a day keeps the schedule on if it is selected: from opening to closing, on
the day that follows if the schedule closes before it opens; the whole day if it closes when it
opens. -/
def window (s : WeeklySchedule) (day : Int) : Set Moment :=
  if s.opens = s.closes then Set.Ico ⟨day, .midnight⟩ ⟨day + 1, .midnight⟩
  else if s.opens < s.closes then Set.Ico ⟨day, s.opens⟩ ⟨day, s.closes⟩
  else Set.Ico ⟨day, s.opens⟩ ⟨day + 1, s.closes⟩

/-- The weekday whose flag selects a day: its own, but today may be a holiday that follows
Sunday. -/
def weekdayOn (s : WeeklySchedule) (today : Int) (holiday : Bool) (day : Int) : Nat :=
  if day = today ∧ holiday = true ∧ s.holidays = .sunday then 0 else weekdayOfDay day

theorem mem_window_today : now ∈ s.window now.day ↔
    s.opens = s.closes ∨ s.opens ≤ now.time ∧ (s.opens < s.closes → now.time < s.closes) := by
  unfold window
  split_ifs with heq hlt
  · simp [heq, Moment.le_iff, Moment.lt_iff, TimeOfDay.midnight_le]
  · simp [heq, hlt, Moment.le_iff, Moment.lt_iff]
  · simp [heq, hlt, Moment.le_iff, Moment.lt_iff]

/-- Yesterday's window is still open in the early half of a night only. -/
theorem mem_window_yesterday : now ∈ s.window (now.day - 1) ↔
    s.closes < s.opens ∧ now.time < s.closes := by
  unfold window
  split_ifs with heq hlt
  · simp [heq, Moment.le_iff, Moment.lt_iff, (TimeOfDay.midnight_le _).not_gt]
  · have hday : now.day ≠ now.day - 1 := by omega
    simp [Moment.le_iff, Moment.lt_iff, hlt.not_gt, hday]
  · have hnight : s.closes < s.opens := lt_of_le_of_ne (not_lt.1 hlt) (Ne.symm heq)
    simp [hnight, Moment.le_iff, Moment.lt_iff]

/-! ### Times of opening and closing -/

theorem bounds_of_readTime {key : String} {t : TimeOfDay} (h : readTime p key = .ok t) :
    t.second < secondsPerDay ∧ t.nanos ≤ nanosPerSecond := by
  obtain ⟨text?, -, h⟩ := exists_of_bind_eq_ok h
  cases text? with
  | none =>
    cases h
    decide
  | some text =>
    dsimp only at h
    split at h
    · rename_i t' htime
      cases h
      exact TimeOfDay.ofChars?_bounds htime
    · cases h

/-- A schedule closes within a day, or at the latest when a leap second begins. -/
theorem closes_bounds (h : ofParams p = .ok s) :
    s.closes.second < secondsPerDay ∧ s.closes.nanos ≤ nanosPerSecond := by
  obtain ⟨days, -, h⟩ := exists_of_bind_eq_ok h
  obtain ⟨opens, -, h⟩ := exists_of_bind_eq_ok h
  obtain ⟨closes, hcloses, h⟩ := exists_of_bind_eq_ok h
  obtain ⟨holidays, -, h⟩ := exists_of_bind_eq_ok h
  cases h
  exact bounds_of_readTime hcloses

/-- The early half of a night never falls into the leap second at the end of its day. -/
theorem day_addMillis_of_lt_closes (h : ofParams p = .ok s) (hnow : now.time.OnClock)
    (hlt : now.time < s.closes) : (now.addMillis (-(millisPerDay : Int))).day = now.day - 1 := by
  obtain ⟨hsecond, hnanos⟩ := closes_bounds h
  rw [Moment.day_addMillis_neg_day hnow, if_neg]
  rintro ⟨hleap, hend⟩
  rw [TimeOfDay.isLeap, decide_eq_true_eq] at hleap
  rw [TimeOfDay.lt_iff] at hlt
  omega

/-! ### The windows of the selected days -/

variable (hs : ofParams p = .ok s) (hnow : now.time.OnClock)

include hs hnow

/-- A schedule is on within the window of a selected day. -/
theorem isActive_iff_window : s.isActive now holiday = true ↔
    ¬ (holiday = true ∧ s.holidays = .off) ∧
      (s.weekdayOn now.day holiday now.day ∈ s.days ∧ now ∈ s.window now.day ∨
        s.weekdayOn now.day holiday (now.day - 1) ∈ s.days ∧ now ∈ s.window (now.day - 1)) := by
  have htoday : s.weekdayOn now.day holiday now.day =
      if (holiday && s.holidays == .sunday) = true then 0 else now.weekday := by
    simp [weekdayOn, Moment.weekday]
  have hyesterday : s.weekdayOn now.day holiday (now.day - 1) = weekdayOfDay (now.day - 1) := by
    simp [weekdayOn]
  rw [mem_window_today, mem_window_yesterday, htoday, hyesterday]
  unfold isActive
  by_cases hoff : (holiday && s.holidays == .off) = true
  · simp [show holiday = true ∧ s.holidays = .off by simpa using hoff]
  · rw [if_neg hoff]
    generalize (if (holiday && s.holidays == .sunday) = true then 0 else now.weekday) = today
    replace hoff : ¬ (holiday = true ∧ s.holidays = .off) := by simpa using hoff
    rcases lt_trichotomy s.opens s.closes with hlt | heq | hgt
    · simp [hoff, hlt, hlt.ne, hlt.not_gt, TimeOfDay.before_iff, ← Bool.not_eq_true, and_assoc]
    · simp [hoff, heq]
    · -- yesterday's weekday is looked up at any time, but it only matters in the early half
      have hearly : (now.addMillis (-(millisPerDay : Int))).weekday ∈ s.days ∧
            now.time < s.closes ↔
          weekdayOfDay (now.day - 1) ∈ s.days ∧ now.time < s.closes := by
        refine and_congr_left fun hlt => ?_
        rw [Moment.weekday, day_addMillis_of_lt_closes hs hnow hlt]
      simp [hoff, hgt, hgt.ne', hgt.not_gt, TimeOfDay.before_iff, ← Bool.not_eq_true, hearly]

/-- A schedule is on if and only if the present moment lies within the window of a selected day,
which is today or yesterday, and today is not a holiday off. In the early half of a night that is to
say that yesterday is selected, whatever its date. -/
theorem isActive_iff_mem_window (holiday : Bool) :
    (s.isActive now holiday = true ↔ ¬ (holiday = true ∧ s.holidays = .off) ∧
      ∃ day, (day = now.day ∨ day = now.day - 1) ∧
        s.weekdayOn now.day holiday day ∈ s.days ∧ now ∈ s.window day) ∧
    ∀ yesterday : Date, yesterday.tomorrow.day = now.day → s.closes < s.opens →
      now.time < s.closes →
      (s.isActive now holiday = true ↔ ¬ (holiday = true ∧ s.holidays = .off) ∧
        weekdayOfDay yesterday.day ∈ s.days) := by
  rw [isActive_iff_window hs hnow]
  constructor
  · simp only [or_and_right, exists_or, exists_eq_left]
  · intro yesterday hyesterday hnight hearly
    rw [Date.day_tomorrow] at hyesterday
    have hday : yesterday.day = now.day - 1 := by omega
    have hwindow : now ∉ s.window now.day := by
      rw [mem_window_today]
      rintro (heq | ⟨hopen, -⟩)
      · exact hnight.ne' heq
      · exact (hearly.trans hnight).not_ge hopen
    have hweekday : s.weekdayOn now.day holiday (now.day - 1) = weekdayOfDay yesterday.day := by
      rw [weekdayOn, if_neg (by omega), hday]
    rw [hweekday, mem_window_yesterday]
    simp only [hwindow, hnight, hearly, and_true, and_false, false_or]

omit hs hnow

/-! ### A night into March -/

/-- Every Thursday from ten at night until six in the morning. -/
def thursdayNights : WeeklySchedule where
  days := [4]
  opens := ⟨22 * 3600, 0⟩
  closes := ⟨6 * 3600, 0⟩
  holidays := .sunday

def thursdayNightsParams : Params where
  node := "night"
  table := [("days", .array [.str "thu"]), ("from", .str "22:00"), ("to", .str "06:00"),
    ("holiday_mode", .str "sunday")]

/-- A leap day that is a Thursday. -/
def leapDay : Date where
  year := 2024
  month := 2
  dayOfMonth := 29

/-- On a holiday after the leap day, the schedule is still on in the early morning. -/
theorem isActive_after_leapDay :
    ofParams thursdayNightsParams = .ok thursdayNights ∧
      (Moment.ofDate 2024 3 1 5 59 59 0).time.OnClock ∧
      thursdayNights.isActive (.ofDate 2024 3 1 5 59 59 0) true = true ∧
      ∃ day, (day = dayOfDate 2024 3 1 ∨ day = dayOfDate 2024 3 1 - 1) ∧
        thursdayNights.weekdayOn (dayOfDate 2024 3 1) true day ∈ thursdayNights.days ∧
        Moment.ofDate 2024 3 1 5 59 59 0 ∈ thursdayNights.window day := by
  have hs : ofParams thursdayNightsParams = .ok thursdayNights := by decide +kernel
  have hnow : (Moment.ofDate 2024 3 1 5 59 59 0).time.OnClock := ⟨by decide, by decide⟩
  obtain ⟨hiff, hearly⟩ := isActive_iff_mem_window hs hnow true
  have hon := (hearly leapDay (by decide) (by decide) (by decide)).2 ⟨by decide, by decide⟩
  exact ⟨hs, hnow, hon, (hiff.1 hon).2⟩

end WeeklySchedule

end SignalGraph
