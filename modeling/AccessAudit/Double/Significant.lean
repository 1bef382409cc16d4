import AccessAudit.Double.Shortest

/-!
# Numbers with fifteen significant digits

The text of a floating-point number in a text column of the store.  The value is rounded to fifteen
significant digits, a half going up, zeros at the end are dropped, and at least one digit stands
after the point.  Below `1e-4` and from `1e15` on a power of ten is written.
-/

namespace AccessAudit
namespace Double

/-- The fifteen digits of a positive value, as a number, and the power of ten of the first one. -/
def leadingDigits (x : Rat) : Nat × Int :=
  let top := Decimal.floorLog10 x
  let n := (Decimal.roundUp (x / (10 : Rat) ^ (top - 14))).toNat
  if n = 1000000000000000 then (100000000000000, top + 1) else (n, top)

/-- Digits with a point after the first `whole` of them and at least one digit behind it. -/
def withPoint (whole : Nat) (ds : List Char) : List Char :=
  let tail := ds.drop whole
  ds.take whole ++ '.' :: (if tail = [] then ['0'] else tail)

/-- The text of a positive value. -/
def significantChars (x : Rat) : List Char :=
  let (n, top) := leadingDigits x
  let (m, _) := Decimal.dropZeros 15 (n, 0)
  let ds := Decimal.digits m
  if top < -4 ∨ 15 ≤ top then
    withPoint 1 ds ++ 'e' :: (if top < 0 then '-' else '+') :: Decimal.padded 2 top.natAbs
  else if top < 0 then '0' :: '.' :: (List.replicate (-top - 1).toNat '0' ++ ds)
  else
    let whole := top.toNat + 1
    withPoint whole (ds ++ List.replicate (whole - ds.length) '0')

/-- The text of a number; both zeros have the same. -/
def significantText : Double → String
  | .nan => ""
  | .signed negative rank _ =>
      if rank = 0 then "0.0"
      else
        let body :=
          if rank = infiniteRank then "Inf".toList else significantChars (rankValue rank)
        String.ofList (if negative then '-' :: body else body)

end Double
end AccessAudit
