import AccessAudit.Calendar.Moment
import AccessAudit.Double.Significant
import AccessAudit.Store.Cell

/-!
# Values and columns of the store

A value that is bound to a statement is null, a whole number of 64 bits, a floating-point number, a text or
a sequence of bytes.  Every column has an inclination: a text column turns numbers into text, a whole-number
column turns numbers and numeric texts into whole numbers where that loses nothing.  Bytes stay bytes.
-/

namespace AccessAudit
namespace Store

/-- A value bound to a statement. -/
inductive Value
  | null
  | integer (n : Int)
  | real (x : Double)
  | text (s : String)
  | bytes (b : List UInt8)
  deriving DecidableEq

/-- The value as the store takes it: it knows no NaN. -/
def Value.bound : Value → Value
  | .real .nan => .null
  | v => v

/-- What a text column keeps of a value. -/
def Value.toCell? (v : Value) : Option Cell :=
  match v.bound with
  | .null => none
  | .integer n => some (Decimal.text n)
  | .real x => some x.significantText
  | .text s => some s
  | .bytes b => some (.bytes b)

/-- A user id as a whole-number column keeps it.  What is no number is kept as in a text column. -/
inductive Uid
  | integer (n : Int)
  | real (x : Double)
  | text (c : Cell)
  deriving DecidableEq

/-- Whether a number fits in 64 bits with a sign. -/
def fitsInt64 (n : Int) : Bool :=
  -(Decimal.int64Max : Int) - 1 ≤ n && n ≤ (Decimal.int64Max : Int)

/-- A floating-point number in a whole-number column: a whole number if it is one that lies strictly
within 64 bits. -/
def Uid.ofDouble (x : Double) : Uid :=
  match x.toRat? with
  | some r =>
      if r.den = 1 ∧ -(Decimal.int64Max : Int) ≤ r.num ∧ r.num < (Decimal.int64Max : Int) then .integer r.num
      else .real x
  | none => .real x

/-- The whole number that a text of digits with an optional sign denotes. -/
def wholeNumber? (s : List Char) : Option Int :=
  let (negative, ds) := Decimal.takeSign s
  if ds ≠ [] ∧ ds.all Decimal.isDigit then
    let n : Int := Decimal.digitsValue ds
    some (if negative then -n else n)
  else none

/-- The text without the blanks that the store skips around a number. -/
def trimGaps (s : List Char) : List Char :=
  ((s.dropWhile Calendar.isGap).reverse.dropWhile Calendar.isGap).reverse

/-- A text in a whole-number column: a number if it is one in decimal notation. -/
def Uid.ofText (s : String) : Uid :=
  match wholeNumber? (trimGaps s.toList) with
  | some n =>
      if fitsInt64 n then .integer n
      else Uid.ofDouble (Double.ofRat (n : Rat))
  | none =>
      match Calendar.readNumber s.toList with
      | some x => Uid.ofDouble x
      | none => .text s

/-- What a whole-number column keeps of a value. -/
def Value.toUid? (v : Value) : Option Uid :=
  match v.bound with
  | .null => none
  | .integer n => some (.integer n)
  | .real x => some (Uid.ofDouble x)
  | .text s => some (Uid.ofText s)
  | .bytes b => some (.text (.bytes b))

/-- The text of a user id. -/
def Uid.toText : Uid → String
  | .integer n => Decimal.text n
  | .real x => x.significantText
  | .text c => c.toText

/-- Why a user id has no text. -/
def Uid.textFault? : Uid → Option Text.Utf8Fault
  | .text c => c.textFault?
  | _ => none

/-- The value of the whole number at the start of a text, after blanks; 0 if there is none.  A number
beyond 64 bits counts as the nearest one within. -/
def leadingInteger (s : String) : Int :=
  let (negative, rest) := Decimal.takeSign (s.toList.dropWhile Calendar.isGap)
  let n : Int := Decimal.digitsValue (Decimal.takeDigits rest).1
  if negative then max (-n) (-(Decimal.int64Max : Int) - 1) else min n (Decimal.int64Max : Int)

/-- Whether a floating-point number is at most an exact value. -/
def doubleAtMost (x : Double) (r : Rat) : Bool :=
  match x.toRat? with
  | some q => q ≤ r
  | none => x.isNegative

/-- Whether a floating-point number is at least an exact value. -/
def doubleAtLeast (x : Double) (r : Rat) : Bool :=
  match x.toRat? with
  | some q => r ≤ q
  | none => !x.isNegative

/-- The order of user ids: numbers by value, and after them texts and bytes. -/
def Uid.le : Uid → Uid → Bool
  | .text a, .text b => a ≤ b
  | .text _, _ => false
  | _, .text _ => true
  | .integer a, .integer b => a ≤ b
  | .integer a, .real y => doubleAtLeast y (a : Rat)
  | .real x, .integer b => doubleAtMost x (b : Rat)
  | .real x, .real y => !(y.lt x)

/-- Whether a user id has the value of a whole number. -/
def Uid.isInteger (n : Int) (uid : Uid) : Bool :=
  Uid.le uid (.integer n) && Uid.le (.integer n) uid

end Store
end AccessAudit
