import SignalGraph.Calendar.Moment
import SignalGraph.Node.Params

/-!
# Weekly schedules

A weekly schedule opens a window on selected weekdays. A window whose end lies before its start
runs across midnight and belongs to the day it starts on; one that ends when it starts lasts the
whole day. A holiday may be treated like any other day, keep the schedule off, or follow Sunday.
-/

namespace SignalGraph

/-- What a holiday does to a schedule. -/
inductive HolidayMode where
  | ignore
  | off
  | sunday
  deriving DecidableEq, Repr, Inhabited

/-- The mode that a word names, in any case. -/
def HolidayMode.ofName? (name : String) : Option HolidayMode :=
  match Text.lower name with
  | "ignore" | "none" => some .ignore
  | "off" => some .off
  | "sunday" | "as_sunday" | "treat_as_sunday" => some .sunday
  | _ => none

/-- The weekday that an English or German word names, in lower case. -/
def weekdayOfWord? : String → Option Nat
  | "sun" | "sunday" | "so" | "sonntag" => some 0
  | "mon" | "monday" | "mo" | "montag" => some 1
  | "tue" | "tuesday" | "di" | "dienstag" => some 2
  | "wed" | "wednesday" | "mi" | "mittwoch" => some 3
  | "thu" | "thursday" | "do" | "donnerstag" => some 4
  | "fri" | "friday" | "fr" | "freitag" => some 5
  | "sat" | "saturday" | "sa" | "samstag" => some 6
  | _ => none

/-- The number that a text of digits writes, perhaps after a plus sign. -/
def plainNat? : List Char → Option Nat
  | '+' :: cs => Decimal.natOfChars? cs
  | cs => Decimal.natOfChars? cs

/-- The weekday that a text names by a number from 0 to 7 (Sunday is both 0 and 7) or a word. -/
def weekdayOfText? (text : String) : Option Nat :=
  let word := Text.lower (Text.trim text)
  match plainNat? word.toList with
  | some n => if n ≤ 7 then some (n % 7) else none
  | none => weekdayOfWord? word

/-- A weekly schedule. -/
structure WeeklySchedule where
  /-- The selected weekdays. -/
  days : List Nat
  opens : TimeOfDay
  closes : TimeOfDay
  holidays : HolidayMode
  deriving DecidableEq, Repr, Inhabited

namespace WeeklySchedule

/-- The names in a list of days, which may be an array, a text with commas or anything else that
then stands for itself as JSON text. -/
def dayNames : Json → List String
  | .array items =>
    items.map fun
      | .str s => s
      | j => j.print
  | .str s => Text.split ',' s
  | j => [j.print]

/-- The selected weekdays; every day if none are given. Blank names are skipped. -/
def readDays (p : Params) : Except ConfigError (List Nat) :=
  match p.raw? "days" with
  | none => .ok [0, 1, 2, 3, 4, 5, 6]
  | some j =>
    ((dayNames j).filter fun name => !(Text.trim name).isEmpty).mapM fun name =>
      match weekdayOfText? name with
      | some day => .ok day
      | none => p.invalid "days" (.unknownDay name)

/-- A time of day, midnight if absent. -/
def readTime (p : Params) (key : String) : Except ConfigError TimeOfDay := do
  match ← p.text? key with
  | none => return .midnight
  | some s =>
    match TimeOfDay.ofChars? s.toList with
    | some t => return t
    | none => p.invalid key .notTime

def readHolidays (p : Params) : Except ConfigError HolidayMode := do
  match ← p.text? "holiday_mode" with
  | none => return .ignore
  | some s =>
    match HolidayMode.ofName? s with
    | some mode => return mode
    | none => p.invalid "holiday_mode" .notHolidayMode

/-- The schedule that parameters describe. -/
def ofParams (p : Params) : Except ConfigError WeeklySchedule := do
  return { days := ← readDays p
           opens := ← readTime p "from"
           closes := ← readTime p "to"
           holidays := ← readHolidays p }

/-- Whether a schedule is on at a moment; `holiday` says whether its day is a holiday. -/
def isActive (s : WeeklySchedule) (now : Moment) (holiday : Bool) : Bool :=
  if holiday && s.holidays == .off then false
  else
    let today := if holiday && s.holidays == .sunday then 0 else now.weekday
    let todaySelected := s.days.contains today
    let time := now.time
    if s.opens = s.closes then todaySelected
    else if s.opens.before s.closes then
      todaySelected && !time.before s.opens && time.before s.closes
    else
      let yesterday := (now.addMillis (-(millisPerDay : Int))).weekday
      (todaySelected && !time.before s.opens) ||
        (s.days.contains yesterday && time.before s.closes)

end WeeklySchedule

end SignalGraph
