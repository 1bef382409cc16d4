/-!
# Rounding of exact quotients

Two ways to round an exact number to a whole one, and the size of an exact number in powers of two
and of ten.  Everything that is shown with a limited number of digits, or stored in a limited
number of bits, goes through these.
-/

namespace AccessAudit
namespace Decimal

/-- The nearest whole number; a half goes to the even neighbour. -/
def roundEven (x : Rat) : Int :=
  let below := x.floor
  let rest := x - (below : Rat)
  if rest < 1 / 2 then below
  else if 1 / 2 < rest then below + 1
  else if below % 2 = 0 then below
  else below + 1

/-- The nearest whole number; a half goes up. -/
def roundUp (x : Rat) : Int :=
  (x + 1 / 2).floor

/-- The greatest `e` with `2 ^ e ≤ x`, for a positive `x`. -/
def floorLog2 (x : Rat) : Int :=
  let guess : Int := (Nat.log2 x.num.natAbs : Int) - (Nat.log2 x.den : Int)
  if (2 : Rat) ^ guess ≤ x then guess else guess - 1

/-- The greatest `e` with `10 ^ e ≤ x`, for a positive `x`. -/
def floorLog10 (x : Rat) : Int :=
  let guess : Int := Int.fdiv (floorLog2 x * 30103) 100000
  if (10 : Rat) ^ (guess + 1) ≤ x then guess + 1
  else if (10 : Rat) ^ guess ≤ x then guess
  else guess - 1

end Decimal
end AccessAudit
