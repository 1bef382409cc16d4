import AccessAudit.Decimal.Numeral

/-!
# Grouped numbers

Counts are written with a comma between groups of three digits, counted from the right.
-/

namespace AccessAudit
namespace Decimal

/-- Puts a comma before every digit that a whole number of groups of three follows, the first
digit excepted.  The last argument tells whether a digit stands before. -/
def groupDigits : List Char → Bool → List Char
  | [], _ => []
  | c :: rest, inside =>
      if inside ∧ (rest.length + 1) % 3 = 0 then ',' :: c :: groupDigits rest true
      else c :: groupDigits rest true

/-- A whole number with its digits in groups of three. -/
def grouped (n : Int) : List Char :=
  let body := groupDigits (digits n.natAbs) false
  if n < 0 then '-' :: body else body

/-- The grouped number as text. -/
def groupedText (n : Int) : String :=
  String.ofList (grouped n)

/-- The digits and the sign of a grouped number. -/
def ungroup (s : List Char) : List Char :=
  s.filter (· ≠ ',')

end Decimal
end AccessAudit
