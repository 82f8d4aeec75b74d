import SignalGraph.Decimal.Numeral
import SignalGraph.Text.Blank

/-!
# Calendar time

A `Moment` is a day of the Gregorian calendar and a time of that day. A time of day may lie in a
leap second: its seconds then stand still while the nanoseconds run from `10 ^ 9` up to
`2 · 10 ^ 9`. Adding a duration leaves a leap second by ending it, and a difference of two moments
counts a leap second only if one of them lies in it.
-/

namespace SignalGraph

/-- Nanoseconds in a second. -/
def nanosPerSecond : Nat := 1000000000

/-- Nanoseconds in a millisecond. -/
def nanosPerMilli : Nat := 1000000

/-- Seconds in a day. -/
def secondsPerDay : Nat := 86400

/-- Milliseconds in a day. -/
def millisPerDay : Nat := 86400000

/-! ### Time of day -/

/-- A time of day. -/
structure TimeOfDay where
  /-- Seconds since midnight. -/
  second : Nat
  /-- Nanoseconds within the second; `10 ^ 9` or more in a leap second. -/
  nanos : Nat
  deriving DecidableEq, Repr, Inhabited

namespace TimeOfDay

def midnight : TimeOfDay := ⟨0, 0⟩

/-- Whether the time lies in a leap second. -/
def isLeap (t : TimeOfDay) : Bool :=
  nanosPerSecond ≤ t.nanos

/-- The order of times: by seconds, then by nanoseconds. -/
def before (a b : TimeOfDay) : Bool :=
  a.second < b.second || (a.second == b.second && a.nanos < b.nanos)

/-- The time of day on a clock; second 60 is the start of a leap second. -/
def ofClock? (hour minute second : Nat) : Option TimeOfDay :=
  if hour < 24 ∧ minute < 60 ∧ second ≤ 60 then
    let inMinute := hour * 3600 + minute * 60
    some (if second = 60 then ⟨inMinute + 59, nanosPerSecond⟩ else ⟨inMinute + second, 0⟩)
  else none

/-- Takes a number of one or two digits, after any blanks. -/
def takeField? (cs : List Char) : Option (Nat × List Char) :=
  match cs.dropWhile Text.isBlank with
  | [] => none
  | c :: rest =>
    if !Decimal.isDigit c then none
    else
      match rest with
      | d :: rest' =>
        if Decimal.isDigit d then some (Decimal.natOfDigits [c, d], rest')
        else some (Decimal.natOfDigits [c], rest)
      | [] => some (Decimal.natOfDigits [c], [])

/-- Takes a colon and a number of one or two digits. -/
def takeColonField? : List Char → Option (Nat × List Char)
  | ':' :: cs => takeField? cs
  | _ => none

/-- Reads `HH:MM` or `HH:MM:SS`. -/
def ofChars? (cs : List Char) : Option TimeOfDay :=
  match takeField? cs with
  | none => none
  | some (hour, rest) =>
    match takeColonField? rest with
    | none => none
    | some (minute, []) => ofClock? hour minute 0
    | some (minute, rest) =>
      match takeColonField? rest with
      | some (second, []) => ofClock? hour minute second
      | _ => none

end TimeOfDay

/-! ### Days -/

/-- The number of days from 1970-01-01 to a date. Years are counted from March, so that a leap day
is the last day of its year. -/
def dayOfDate (year : Int) (month day : Nat) : Int :=
  let y := if month ≤ 2 then year - 1 else year
  let era := y.fdiv 400
  let yearOfEra := (y - era * 400).toNat
  let monthFromMarch := (month + 9) % 12
  let dayOfYear := (153 * monthFromMarch + 2) / 5 + day - 1
  let dayOfEra := yearOfEra * 365 + yearOfEra / 4 - yearOfEra / 100 + dayOfYear
  era * 146097 + dayOfEra - 719468

/-- The year, month and day of the month of a day. -/
def dateOfDay (day : Int) : Int × Nat × Nat :=
  let z := day + 719468
  let era := z.fdiv 146097
  let dayOfEra := (z - era * 146097).toNat
  let yearOfEra := (dayOfEra - dayOfEra / 1460 + dayOfEra / 36524 - dayOfEra / 146096) / 365
  let dayOfYear := dayOfEra - (365 * yearOfEra + yearOfEra / 4 - yearOfEra / 100)
  let monthFromMarch := (5 * dayOfYear + 2) / 153
  let month := if monthFromMarch < 10 then monthFromMarch + 3 else monthFromMarch - 9
  let year := (yearOfEra : Int) + era * 400
  (if month ≤ 2 then year + 1 else year, month, dayOfYear - (153 * monthFromMarch + 2) / 5 + 1)

/-- The weekday of a day: 0 is Sunday. -/
def weekdayOfDay (day : Int) : Nat :=
  ((day + 4) % 7).toNat

/-! ### Moments -/

/-- A day and a time of that day. -/
structure Moment where
  /-- Days since 1970-01-01. -/
  day : Int
  time : TimeOfDay
  deriving DecidableEq, Repr, Inhabited

namespace Moment

/-- The moment at a date, a clock time and nanoseconds. -/
def ofDate (year : Int) (month day hour minute second nanos : Nat) : Moment :=
  ⟨dayOfDate year month day, ⟨hour * 3600 + minute * 60 + second, nanos⟩⟩

def weekday (m : Moment) : Nat :=
  weekdayOfDay m.day

/-- The moment with these seconds and nanoseconds, which may lie outside the day. -/
def normalize (day second nanos : Int) : Moment :=
  let perSecond : Int := nanosPerSecond
  let perDay : Int := secondsPerDay
  let second := second + nanos.fdiv perSecond
  ⟨day + second.fdiv perDay, ⟨(second.fmod perDay).toNat, (nanos.fmod perSecond).toNat⟩⟩

/-- The moment so many milliseconds later, or earlier if negative. A step that stays within a leap
second keeps it; every other step first leaves it to the side it goes to. -/
def addMillis (m : Moment) (millis : Int) : Moment :=
  let seconds := millis.tdiv 1000
  let fraction := millis.tmod 1000 * nanosPerMilli
  let second : Int := m.time.second
  let nanos : Int := m.time.nanos
  let perSecond : Int := nanosPerSecond
  if m.time.isLeap then
    if 0 < seconds ∨ (0 < fraction ∧ 2 * perSecond ≤ nanos + fraction) then
      normalize m.day (second + seconds) (nanos - perSecond + fraction)
    else if seconds < 0 then
      normalize m.day (second + 1 + seconds) (nanos - perSecond + fraction)
    else ⟨m.day, ⟨m.time.second, (nanos + fraction).toNat⟩⟩
  else normalize m.day (second + seconds) (nanos + fraction)

/-- The nanoseconds from `earlier` to `m`. -/
def nanosSince (m earlier : Moment) : Int :=
  let seconds : Int := (m.time.second : Int) - earlier.time.second
  let leap : Int :=
    if earlier.time.second < m.time.second ∧ earlier.time.isLeap then 1
    else if m.time.second < earlier.time.second ∧ m.time.isLeap then -1
    else 0
  ((m.day - earlier.day) * secondsPerDay + seconds + leap) * nanosPerSecond +
    ((m.time.nanos : Int) - earlier.time.nanos)

/-- The whole milliseconds from `earlier` to `m`, zero if `m` is the earlier one. -/
def millisSince (m earlier : Moment) : Nat :=
  (m.nanosSince earlier).toNat / nanosPerMilli

/-- The milliseconds until the next full minute, at least one and at most 60000. -/
def untilNextMinute (m : Moment) : Nat :=
  60000 - (m.time.second % 60 * 1000 + min (m.time.nanos / nanosPerMilli) 999)

/-- A number with at least `width` digits. -/
def padded (width n : Nat) : List Char :=
  let digits := Nat.toDigits 10 n
  List.replicate (width - digits.length) '0' ++ digits

/-- A year with at least four digits, signed unless it lies in 0000 … 9999. -/
def yearChars (year : Int) : List Char :=
  if year < 0 then '-' :: padded 4 year.natAbs
  else if 9999 < year then '+' :: padded 4 year.natAbs
  else padded 4 year.natAbs

/-- The text `YYYY-MM-DDTHH:MM:SS.mmm` of a moment; a leap second is second 60. -/
def text (m : Moment) : String :=
  let (year, month, day) := dateOfDay m.day
  let second := m.time.second
  let leap := if m.time.isLeap then 1 else 0
  String.ofList <|
    yearChars year ++ '-' :: padded 2 month ++ '-' :: padded 2 day ++
      'T' :: padded 2 (second / 3600) ++ ':' :: padded 2 (second / 60 % 60) ++
      ':' :: padded 2 (second % 60 + leap) ++
      '.' :: padded 3 (m.time.nanos % nanosPerSecond / nanosPerMilli)

end Moment

end SignalGraph
