import AccessAudit.Decimal.Numeral

/-!
# Gregorian dates

Dates of the Gregorian calendar, continued to all years, and their day numbers counted from
1970-01-01.  The count starts each year in March, so that the leap day is the last of its year.
-/

namespace AccessAudit
namespace Calendar

/-- A calendar date; the year may be zero or negative. -/
structure Date where
  year : Int
  month : Nat
  day : Nat
  deriving Repr, DecidableEq

/-- Days before the first day of a month, in a year that starts with March. -/
def daysBeforeMonth (monthFromMarch : Int) : Int :=
  (153 * monthFromMarch + 2) / 5

/-- The day number of a date.  A day after the end of its month is counted on into the next. -/
def Date.toDay (d : Date) : Int :=
  let year := if d.month ≤ 2 then d.year - 1 else d.year
  let month : Int := if d.month ≤ 2 then d.month + 9 else d.month - 3
  let era := year / 400
  let yearOfEra := year % 400
  let dayOfYear := daysBeforeMonth month + d.day - 1
  era * 146097 + (yearOfEra * 365 + yearOfEra / 4 - yearOfEra / 100 + dayOfYear) - 719468

/-- The date of a day number. -/
def Date.ofDay (n : Int) : Date :=
  let n := n + 719468
  let era := n / 146097
  let dayOfEra := n % 146097
  let yearOfEra :=
    (dayOfEra - dayOfEra / 1460 + dayOfEra / 36524 - dayOfEra / 146096) / 365
  let dayOfYear := dayOfEra - (365 * yearOfEra + yearOfEra / 4 - yearOfEra / 100)
  let month := (5 * dayOfYear + 2) / 153
  let day := dayOfYear - daysBeforeMonth month + 1
  let year := yearOfEra + era * 400
  if month < 10 then ⟨year, (month + 3).toNat, day.toNat⟩
  else ⟨year + 1, (month - 9).toNat, day.toNat⟩

/-- The text of a date: four digits of the year after its sign, and two each of month and day. -/
def Date.chars (d : Date) : List Char :=
  (if d.year < 0 then ['-'] else []) ++ Decimal.padded 4 d.year.natAbs ++
    '-' :: Decimal.padded 2 d.month ++ '-' :: Decimal.padded 2 d.day

/-- The text of a date. -/
def Date.text (d : Date) : String :=
  String.ofList d.chars

/-- The days of the week. -/
inductive Weekday
  | sunday
  | monday
  | tuesday
  | wednesday
  | thursday
  | friday
  | saturday
  deriving Repr, DecidableEq

/-- The three letters of a weekday. -/
def Weekday.short : Weekday → String
  | .sunday => "Sun"
  | .monday => "Mon"
  | .tuesday => "Tue"
  | .wednesday => "Wed"
  | .thursday => "Thu"
  | .friday => "Fri"
  | .saturday => "Sat"

/-- The weekday of a day number; day 0 was a Thursday. -/
def Weekday.ofDay (n : Int) : Weekday :=
  match (n + 4) % 7 with
  | 0 => .sunday
  | 1 => .monday
  | 2 => .tuesday
  | 3 => .wednesday
  | 4 => .thursday
  | 5 => .friday
  | _ => .saturday

/-- The three letters of a month from 1 to 12. -/
def monthShort (month : Nat) : String :=
  match month with
  | 1 => "Jan"
  | 2 => "Feb"
  | 3 => "Mar"
  | 4 => "Apr"
  | 5 => "May"
  | 6 => "Jun"
  | 7 => "Jul"
  | 8 => "Aug"
  | 9 => "Sep"
  | 10 => "Oct"
  | 11 => "Nov"
  | _ => "Dec"

/-- The time of day `HH:MM:SS` of a number of seconds since midnight. -/
def clockText (seconds : Nat) : List Char :=
  Decimal.padded 2 (seconds / 3600) ++ ':' :: Decimal.padded 2 (seconds % 3600 / 60) ++
    ':' :: Decimal.padded 2 (seconds % 60)

/-- A moment given in seconds since the start of 1970: its day number and its second of day. -/
def splitSeconds (seconds : Int) : Int × Nat :=
  (seconds / 86400, (seconds % 86400).toNat)

/-- The text `YYYY-MM-DD HH:MM:SS` of a moment. -/
def stampText (seconds : Int) : String :=
  let (day, rest) := splitSeconds seconds
  String.ofList ((Date.ofDay day).chars ++ ' ' :: clockText rest)

/-- The text `YYYY-MM-DD HH:MM` of a moment. -/
def minuteText (seconds : Int) : String :=
  let (day, rest) := splitSeconds seconds
  String.ofList ((Date.ofDay day).chars ++ ' ' :: (clockText rest).take 5)

end Calendar
end AccessAudit
