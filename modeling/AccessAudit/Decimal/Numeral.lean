/-!
# Whole numbers in decimal

Reading a decimal numeral within bounds, and the digits of a natural number.  A numeral is an
optional sign and at least one digit; leading zeros are accepted.  The first thing wrong with it,
from left to right, is what the reader reports.
-/

namespace AccessAudit
namespace Decimal

/-- Why a text is no numeral within its bounds. -/
inductive NumeralFault
  | empty
  | invalidDigit
  | tooLarge
  | tooSmall
  deriving Repr, DecidableEq

/-- The wording of a fault. -/
def NumeralFault.message : NumeralFault → String
  | .empty => "cannot parse integer from empty string"
  | .invalidDigit => "invalid digit found in string"
  | .tooLarge => "number too large to fit in target type"
  | .tooSmall => "number too small to fit in target type"

/-- The value of an ASCII digit. -/
def digitValue? (c : Char) : Option Nat :=
  if '0' ≤ c ∧ c ≤ '9' then some (c.toNat - '0'.toNat) else none

/-- Appends digits to a number; a character that is no digit is reported before an excess over
`hi` that it would be part of. -/
def readDigits
    (hi : Nat) (fault : NumeralFault) :
    Nat → List Char → Except NumeralFault Nat
  | n, [] => .ok n
  | n, c :: rest =>
      match digitValue? c with
      | none => .error .invalidDigit
      | some d =>
          if n * 10 + d ≤ hi then readDigits hi fault (n * 10 + d) rest
          else .error fault

/-- A numeral between 0 and `hi`, with an optional plus sign. -/
def readNat (hi : Nat) : List Char → Except NumeralFault Nat
  | [] => .error .empty
  | ['+'] => .error .invalidDigit
  | '+' :: rest => readDigits hi .tooLarge 0 rest
  | s => readDigits hi .tooLarge 0 s

/-- The greatest signed 64-bit number. -/
def int64Max : Nat := 0x7FFFFFFFFFFFFFFF

/-- The number of words of 64 bits. -/
def word64Count : Nat := 0x10000000000000000

/-- A numeral that fits in a signed 64-bit number, with an optional sign. -/
def readInt64 : List Char → Except NumeralFault Int
  | [] => .error .empty
  | ['+'] => .error .invalidDigit
  | ['-'] => .error .invalidDigit
  | '+' :: rest => (readDigits int64Max .tooLarge 0 rest).map Int.ofNat
  | '-' :: rest => (readDigits (int64Max + 1) .tooSmall 0 rest).map fun n => -(n : Int)
  | s => (readDigits int64Max .tooLarge 0 s).map Int.ofNat

/-- The decimal digits of a number, without leading zeros. -/
def digits (n : Nat) : List Char :=
  Nat.toDigits 10 n

/-- The digits of a number, filled up on the left with zeros to a width. -/
def padded (width n : Nat) : List Char :=
  List.replicate (width - (digits n).length) '0' ++ digits n

/-- A whole number with a minus sign where it is negative. -/
def signed (n : Int) : List Char :=
  if n < 0 then '-' :: digits n.natAbs else digits n.natAbs

/-- The number as text. -/
def text (n : Int) : String :=
  String.ofList (signed n)

end Decimal
end AccessAudit
