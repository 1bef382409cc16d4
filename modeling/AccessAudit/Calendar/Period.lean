import AccessAudit.Calendar.Date
import AccessAudit.Double.Fixed

/-!
# Periods and rates

A period is shown in days, hours, minutes and seconds, rounded to whole seconds.  A rate is a number
of events per hour with two decimals.
-/

namespace AccessAudit
namespace Calendar

/-- The greatest number of seconds that is shown. -/
def periodLimit : Nat := Decimal.word64Count - 1

/-- The whole seconds of a period that is finite and not negative, a half counting as one. -/
def wholeSeconds? (x : Double) : Option Nat :=
  match x.toRat? with
  | some r => if 0 ≤ r then some (min (Decimal.roundUp r).toNat periodLimit) else none
  | none => none

/-- The text of a number of whole seconds: days if there are any, and the rest as a clock. -/
def periodOfSeconds (total : Nat) : List Char :=
  let clock := clockText (total % 86400)
  match total / 86400 with
  | 0 => clock
  | 1 => "1 day ".toList ++ clock
  | days => Decimal.digits days ++ " days ".toList ++ clock

/-- The text of a period; blank where there is none. -/
def periodText (seconds : Option Double) : String :=
  match seconds.bind wholeSeconds? with
  | some total => String.ofList (periodOfSeconds total)
  | none => ""

/-- Events per hour over a period; blank where the period is not positive. -/
def hourlyRate (count : Int) (seconds : Option Double) : String :=
  match seconds with
  | some s =>
      if (Double.ofInt 0).lt s then
        ((Double.ofInt 3600 * Double.ofInt count) / s).fixedText 2
      else ""
  | none => ""

end Calendar
end AccessAudit
