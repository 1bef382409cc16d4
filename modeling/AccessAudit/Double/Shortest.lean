import AccessAudit.Decimal.Numeral
import AccessAudit.Double

/-!
# The shortest decimal of a number

A finite number is shown with the fewest decimal digits that read back as it, and among those with
the ones nearest to it.  The decimals that read back as a number are those between the midpoints to
its neighbours, the midpoints themselves included when its rank is even.
-/

namespace AccessAudit
namespace Double

/-- Whether a decimal reads back as the number of a positive finite rank. -/
def readsBack (rank : Nat) (x : Rat) : Bool :=
  let lower := (rankValue (rank - 1) + rankValue rank) / 2
  let upper := (rankValue rank + rankValue (rank + 1)) / 2
  if rank % 2 = 0 then lower ≤ x && x ≤ upper else lower < x && x < upper

/-- The multiple of `10 ^ unit` that is nearest to the number among those that read back as it;
the two multiples on either side of the number are the only candidates, and a tie goes up. -/
def onGrid? (rank : Nat) (unit : Int) : Option Nat :=
  let x := rankValue rank / (10 : Rat) ^ unit
  let below := x.floor.toNat
  let hit (n : Nat) : Bool := readsBack rank ((n : Rat) * (10 : Rat) ^ unit)
  match hit below, hit (below + 1) with
  | true, true =>
      if x - (below : Rat) < ((below + 1 : Nat) : Rat) - x then some below else some (below + 1)
  | true, false => some below
  | false, true => some (below + 1)
  | false, false => none

/-- Searches the grids from the coarsest; `count` digits are left to try. -/
def shortestFrom (rank : Nat) (unit : Int) : Nat → Nat × Int
  | 0 => ((rankValue rank / (10 : Rat) ^ unit).floor.toNat, unit)
  | count + 1 =>
      match onGrid? rank unit with
      | some n => (n, unit)
      | none => shortestFrom rank (unit - 1) count

/-- The digits and the unit of the shortest decimal of a positive finite rank. -/
def shortest (rank : Nat) : Nat × Int :=
  shortestFrom rank (Decimal.floorLog10 (rankValue rank)) 17

end Double

namespace Decimal

/-- Drops up to `fuel` zeros at the end of a number of units. -/
def dropZeros : Nat → Nat × Int → Nat × Int
  | 0, x => x
  | fuel + 1, (n, unit) =>
      if n ≠ 0 ∧ n % 10 = 0 then dropZeros fuel (n / 10, unit + 1) else (n, unit)

/-- A number of units written without a power of ten. -/
def positional (n : Nat) (unit : Int) : List Char :=
  if 0 ≤ unit then digits n ++ List.replicate unit.toNat '0'
  else
    let places := (-unit).toNat
    let ds := padded (places + 1) n
    ds.take (ds.length - places) ++ '.' :: ds.drop (ds.length - places)

end Decimal

namespace Double

/-- A number in its shortest form, never with a power of ten. -/
def shortestText : Double → String
  | .nan => "NaN"
  | .signed negative rank _ =>
      let body :=
        if rank = infiniteRank then "inf".toList
        else if rank = 0 then ['0']
        else
          let (n, unit) := Decimal.dropZeros 400 (shortest rank)
          Decimal.positional n unit
      String.ofList (if negative then '-' :: body else body)

end Double
end AccessAudit
