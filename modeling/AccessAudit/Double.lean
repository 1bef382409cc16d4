import AccessAudit.Decimal.Rounding

/-!
# Binary floating-point numbers

Numbers of the binary64 format, exactly.  A number that is not NaN is a sign and a rank: the rank
counts the non-negative numbers of the format from zero upwards, with infinity last.  The order of
numbers is the order of their ranks, and each finite rank has an exact rational value.  Arithmetic
is the exact operation followed by rounding to the nearest number, a tie going to the even rank.
-/

namespace AccessAudit

/-- The number of numbers that share an exponent. -/
def fractionCount : Nat := 0x10000000000000

/-- The number of finite non-negative numbers, which is the rank of infinity. -/
def infiniteRank : Nat := 2047 * fractionCount

/-- A number of the binary64 format. -/
inductive Double
  | nan
  | signed (negative : Bool) (rank : Nat) (h : rank ≤ infiniteRank)
  deriving DecidableEq

namespace Double

/-- The exact value of a finite rank.  The 52 low bits are the fraction; the others are the
exponent, of which 0 stands for the numbers without a leading one. -/
def rankValue (rank : Nat) : Rat :=
  let exponent : Nat := rank / fractionCount
  let fraction : Nat := rank % fractionCount
  if exponent = 0 then (fraction : Rat) * (2 : Rat) ^ (-1074 : Int)
  else ((fraction + fractionCount : Nat) : Rat) * (2 : Rat) ^ ((exponent : Int) - 1075)

/-- The rank of the number nearest to a non-negative exact value. -/
def nearestRank (x : Rat) : Nat :=
  if x ≤ 0 then 0
  else
    let exponent := max (Decimal.floorLog2 x - 52) (-1074)
    let steps := Decimal.roundEven (x / (2 : Rat) ^ exponent)
    min ((exponent + 1074).toNat * fractionCount + steps.toNat) infiniteRank

theorem nearestRank_le (x : Rat) : nearestRank x ≤ infiniteRank := by
  unfold nearestRank
  split
  · exact Nat.zero_le _
  · exact Nat.min_le_right _ _

/-- Zero with a sign. -/
def zero (negative : Bool) : Double :=
  .signed negative 0 (Nat.zero_le _)

/-- Infinity with a sign. -/
def infinity (negative : Bool) : Double :=
  .signed negative infiniteRank (Nat.le_refl _)

/-- The number nearest to an exact value; `zeroSign` is the sign of a zero result of zero. -/
def ofRat (x : Rat) (zeroSign : Bool := false) : Double :=
  if x = 0 then zero zeroSign
  else if x < 0 then .signed true (nearestRank (-x)) (nearestRank_le _)
  else .signed false (nearestRank x) (nearestRank_le _)

/-- The number nearest to a whole number. -/
def ofInt (n : Int) : Double :=
  ofRat (n : Rat)

instance : Inhabited Double := ⟨zero false⟩

/-- The exact value, of a finite number. -/
def toRat? : Double → Option Rat
  | .nan => none
  | .signed negative rank _ =>
      if rank = infiniteRank then none
      else some (if negative then -(rankValue rank) else rankValue rank)

/-- Whether the number carries a minus sign; NaN carries none. -/
def isNegative : Double → Bool
  | .nan => false
  | .signed negative _ _ => negative

/-- The place of a number in the order of all numbers; both zeros have place 0. -/
def place? : Double → Option Int
  | .nan => none
  | .signed negative rank _ => some (if negative then -(rank : Int) else (rank : Int))

/-- Strictly less; never with NaN. -/
def lt (a b : Double) : Bool :=
  match a.place?, b.place? with
  | some i, some j => i < j
  | _, _ => false

/-- The number with the other sign. -/
def neg : Double → Double
  | .nan => .nan
  | .signed negative rank h => .signed (!negative) rank h

/-- The sum, rounded. -/
def add (a b : Double) : Double :=
  match a, b with
  | .nan, _ => .nan
  | _, .nan => .nan
  | .signed s r _, .signed t q _ =>
      if r = infiniteRank then
        if q = infiniteRank ∧ s ≠ t then .nan else infinity s
      else if q = infiniteRank then infinity t
      else
        ofRat ((if s then -(rankValue r) else rankValue r) +
          (if t then -(rankValue q) else rankValue q)) (s && t)

/-- The difference, rounded. -/
def sub (a b : Double) : Double :=
  a.add b.neg

/-- The product, rounded. -/
def mul (a b : Double) : Double :=
  match a, b with
  | .nan, _ => .nan
  | _, .nan => .nan
  | .signed s r _, .signed t q _ =>
      if r = infiniteRank ∨ q = infiniteRank then
        if r = 0 ∨ q = 0 then .nan else infinity (s != t)
      else .signed (s != t) (nearestRank (rankValue r * rankValue q)) (nearestRank_le _)

/-- The quotient, rounded. -/
def div (a b : Double) : Double :=
  match a, b with
  | .nan, _ => .nan
  | _, .nan => .nan
  | .signed s r _, .signed t q _ =>
      if r = infiniteRank then
        if q = infiniteRank then .nan else infinity (s != t)
      else if q = infiniteRank then zero (s != t)
      else if q = 0 then
        if r = 0 then .nan else infinity (s != t)
      else .signed (s != t) (nearestRank (rankValue r / rankValue q)) (nearestRank_le _)

instance : Add Double := ⟨add⟩
instance : Sub Double := ⟨sub⟩
instance : Mul Double := ⟨mul⟩
instance : Div Double := ⟨div⟩

/-- The number with a given decimal value: `digits` times ten to the power of `exponent`. -/
def ofDecimal (negative : Bool) (digits : Nat) (exponent : Int) : Double :=
  let size : Int := (Nat.toDigits 10 digits).length + exponent
  if digits = 0 ∨ size < -330 then zero negative
  else if 330 < size then infinity negative
  else .signed negative (nearestRank ((digits : Rat) * (10 : Rat) ^ exponent)) (nearestRank_le _)

end Double
end AccessAudit
