import AccessAudit.Calendar.Date
import AccessAudit.Double.Reading
import AccessAudit.Text.Blank

/-!
# Texts that name a moment

The store keeps its dates as text and reads them leniently.  A text names a moment if it is a date,
a date with a time, a time (of 2000-01-01), a day number counted from noon of -4713-11-24, or a word
for the present.  A moment is held in milliseconds on the scale of those day numbers, and only the
years from -4713 to 9999 have moments.
-/

namespace AccessAudit
namespace Calendar

/-- Milliseconds of a day. -/
def dayMillis : Int := 86400000

/-- The start of 1970 in milliseconds of the scale. -/
def epochMillis : Int := 210866760000000

/-- A moment read from a text: its milliseconds and the date as it was written, if that is to be
kept. -/
structure Moment where
  millis : Int
  written : Option Date
  deriving Repr, DecidableEq

/-- Whether there is a moment with these milliseconds. -/
def validMillis (n : Int) : Bool :=
  0 ≤ n && n ≤ 464269060799999

/-- The blanks that the reader skips. -/
def isGap (c : Char) : Bool :=
  c == ' ' || ('\t' ≤ c && c ≤ '\r')

/-- A number of exactly `count` digits between two bounds, and what follows it. -/
def takeNumber (count lo hi : Nat) (s : List Char) : Option (Nat × List Char) :=
  let ds := s.take count
  let n := Decimal.digitsValue ds
  if ds.length = count ∧ ds.all Decimal.isDigit ∧ lo ≤ n ∧ n ≤ hi then some (n, s.drop count)
  else none

/-- Removes one expected character. -/
def takeChar (c : Char) : List Char → Option (List Char)
  | d :: rest => if d = c then some rest else none
  | [] => none

/-- The end of a time: blanks, and perhaps a zone, given as minutes east. -/
def readZone (s : List Char) : Option Int :=
  match s.dropWhile isGap with
  | [] => some 0
  | c :: rest =>
      if c = 'Z' ∨ c = 'z' then
        if (rest.dropWhile isGap) = [] then some 0 else none
      else if c = '+' ∨ c = '-' then do
        let (hours, rest) ← takeNumber 2 0 14 rest
        let rest ← takeChar ':' rest
        let (minutes, rest) ← takeNumber 2 0 59 rest
        let east : Int := hours * 60 + minutes
        if rest.dropWhile isGap = [] then some (if c = '-' then -east else east) else none
      else none

/-- The fraction of a second after the point, in the arithmetic of the store: digit by digit, and
cut off just below one second. -/
def fraction (ds : List Char) : Double :=
  let (value, scale) :=
    ds.foldl
      (fun (value, scale) c =>
        (value * Double.ofInt 10 + Double.ofInt c.toNat - Double.ofInt 48, scale * Double.ofInt 10))
      (Double.ofInt 0, Double.ofInt 1)
  let result := value / scale
  let limit := Double.ofDecimal false 999 (-3)
  if limit.lt result then limit else result

/-- The whole part of a number that is not negative. -/
def truncate (x : Double) : Int :=
  match x.toRat? with
  | some r => r.floor
  | none => 0

/-- Milliseconds of a number of seconds with a fraction, in the arithmetic of the store. -/
def secondMillis (seconds : Nat) (part : List Char) : Int :=
  if part = [] then (seconds : Int) * 1000
  else
    truncate
      ((Double.ofInt seconds + fraction part) * Double.ofInt 1000 + Double.ofDecimal false 5 (-1))

/-- The digits after a point, if there are any. -/
def takeFraction : List Char → List Char × List Char
  | '.' :: c :: rest =>
      if Decimal.isDigit c then Decimal.takeDigits (c :: rest) else ([], '.' :: c :: rest)
  | s => ([], s)

/-- A time of day `HH:MM`, with optional seconds, fraction and zone: milliseconds since midnight,
and minutes east. -/
def readTime (s : List Char) : Option (Int × Int) := do
  let (hours, s) ← takeNumber 2 0 24 s
  let s ← takeChar ':' s
  let (minutes, s) ← takeNumber 2 0 59 s
  let base : Int := (hours : Int) * 3600000 + (minutes : Int) * 60000
  match takeChar ':' s with
  | none => return (base, ← readZone s)
  | some s =>
      let (seconds, s) ← takeNumber 2 0 59 s
      let (part, s) := takeFraction s
      return (base + secondMillis seconds part, ← readZone s)

/-- The milliseconds of the start of a date. -/
def Date.millis (d : Date) : Int :=
  d.toDay * dayMillis + epochMillis

/-- A date `YYYY-MM-DD`, perhaps with a sign, and perhaps with a time after blanks or `T`. -/
def readDate (s : List Char) : Option (Date × Option (Int × Int)) := do
  let (negative, s) :=
    match s with
    | '-' :: rest => (true, rest)
    | _ => (false, s)
  let (year, s) ← takeNumber 4 0 9999 s
  let s ← takeChar '-' s
  let (month, s) ← takeNumber 2 1 12 s
  let s ← takeChar '-' s
  let (day, s) ← takeNumber 2 1 31 s
  let date : Date := ⟨if negative then -(year : Int) else year, month, day⟩
  match s.dropWhile fun c => isGap c || c == 'T' with
  | [] => return (date, none)
  | rest => return (date, some (← readTime rest))

/-- A decimal number between optional blanks. -/
def readNumber (s : List Char) : Option Double := do
  let (negative, rest) := Decimal.takeSign (s.dropWhile isGap)
  let (m, rest) ← Decimal.takeMantissa rest
  let (e, rest) :=
    match Decimal.takeExponent rest with
    | some (e, rest) => (e, rest)
    | none => (0, rest)
  if rest.dropWhile isGap = [] then
    some (Double.ofDecimal negative m.digits (m.exponent + e))
  else none

/-- The moment of a day number with a fraction. -/
def ofDayNumber (x : Double) : Option Moment :=
  if !(x.lt (Double.ofInt 0)) && x.lt (Double.ofDecimal false 53734845 (-1)) then
    some ⟨truncate (x * Double.ofInt dayMillis + Double.ofDecimal false 5 (-1)), none⟩
  else none

/-- The words for the present, in any letter case. -/
def isPresent (s : List Char) : Bool :=
  ["now", "subsec", "subsecond"].contains (String.ofList (Text.lowerAscii s))

/-- The moment that a text names; `now` is the present in seconds since the start of 1970. -/
def Moment.ofText? (now : Int) (s : List Char) : Option Moment :=
  let s := s.takeWhile (· ≠ '\x00')
  let moment : Option Moment :=
    match readDate s with
    | some (date, time) =>
        let (clock, east) := time.getD (0, 0)
        if date.year < -4713 then none
        else
          some
            ⟨date.millis + clock - east * 60000,
              if east = 0 ∧ date.day ≤ 28 then some date else none⟩
    | none =>
        match readTime s with
        | some (clock, east) => some ⟨(Date.mk 2000 1 1).millis + clock - east * 60000, none⟩
        | none =>
            if isPresent s then some ⟨now * 1000 + epochMillis, none⟩
            else (readNumber s).bind ofDayNumber
  moment.filter fun m => validMillis m.millis

/-- The date on which milliseconds of the scale fall. -/
def dateOfMillis (n : Int) : Date :=
  Date.ofDay ((n - epochMillis) / dayMillis)

/-- The date of a moment. -/
def Moment.date (m : Moment) : Date :=
  m.written.getD (dateOfMillis m.millis)

/-- The day number of a moment, noon being a whole number. -/
def Moment.dayNumber (m : Moment) : Double :=
  Double.ofInt m.millis / Double.ofInt dayMillis

/-- The date a number of days before the present, if there is one. -/
def cutoff? (now : Int) (days : Nat) : Option Date :=
  let millis := now * 1000 + epochMillis - days * dayMillis
  if days < 5373485 ∧ validMillis (now * 1000 + epochMillis) ∧ validMillis millis then
    some (dateOfMillis millis)
  else none

/-- The seconds between two texts that name moments. -/
def secondsBetween? (now : Int) (first last : String) : Option Double := do
  let first ← Moment.ofText? now first.toList
  let last ← Moment.ofText? now last.toList
  return (last.dayNumber - first.dayNumber) * Double.ofInt 86400

end Calendar
end AccessAudit
