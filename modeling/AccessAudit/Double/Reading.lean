import AccessAudit.Decimal.Numeral
import AccessAudit.Double

/-!
# Reading floating-point numbers

A decimal text is an optional sign and either a word for a special value or digits with an optional
point and an optional power of ten.  The number read is the one nearest to the exact decimal value.
-/

namespace AccessAudit
namespace Decimal

/-- A decimal value that is not negative: `digits` times ten to the power of `exponent`. -/
structure Scientific where
  digits : Nat
  exponent : Int
  deriving Repr, DecidableEq

/-- The value of a run of digits; characters that are no digits count as zero. -/
def digitsValue (s : List Char) : Nat :=
  s.foldl (fun n c => n * 10 + (digitValue? c).getD 0) 0

/-- Whether a character is an ASCII digit. -/
def isDigit (c : Char) : Bool :=
  (digitValue? c).isSome

/-- The leading digits and what follows them. -/
def takeDigits (s : List Char) : List Char × List Char :=
  (s.takeWhile isDigit, s.dropWhile isDigit)

/-- A leading sign, true for minus, and what follows it. -/
def takeSign : List Char → Bool × List Char
  | '-' :: rest => (true, rest)
  | '+' :: rest => (false, rest)
  | s => (false, s)

/-- The power of ten after the mark `e` or `E`: a sign and at least one digit. -/
def takeExponent : List Char → Option (Int × List Char)
  | c :: rest =>
      if c = 'e' ∨ c = 'E' then
        let (negative, rest) := takeSign rest
        let (ds, rest) := takeDigits rest
        if ds = [] then none
        else some ((if negative then -(digitsValue ds : Int) else (digitsValue ds : Int)), rest)
      else none
  | [] => none

/-- Digits with an optional point among them; at least one digit is needed. -/
def takeMantissa (s : List Char) : Option (Scientific × List Char) :=
  let (whole, rest) := takeDigits s
  let (part, rest) :=
    match rest with
    | '.' :: after => takeDigits after
    | _ => ([], rest)
  if whole = [] ∧ part = [] then none
  else some (⟨digitsValue (whole ++ part), -(part.length : Int)⟩, rest)

end Decimal

namespace Double

open Decimal in
/-- The number that a whole text denotes. -/
def ofText? (s : List Char) : Option Double :=
  let (negative, rest) := takeSign s
  let word := String.ofList (rest.map Char.toLower)
  if word = "nan" then some .nan
  else if word = "inf" ∨ word = "infinity" then some (infinity negative)
  else
    match takeMantissa rest with
    | none => none
    | some (m, []) => some (ofDecimal negative m.digits m.exponent)
    | some (m, rest) =>
        match takeExponent rest with
        | some (e, []) => some (ofDecimal negative m.digits (m.exponent + e))
        | _ => none

end Double
end AccessAudit
