import AccessAudit.Double.Shortest

/-!
# Numbers with a fixed number of places

The exact value is rounded to a whole number of the last place, a half going to the even neighbour.
The sign of the number is shown even where only zeros are left.
-/

namespace AccessAudit
namespace Double

/-- A number with `places` digits after the point. -/
def fixedText (places : Nat) : Double → String
  | .nan => "NaN"
  | .signed negative rank _ =>
      let body :=
        if rank = infiniteRank then "inf".toList
        else
          let units := (Decimal.roundEven (rankValue rank * (10 : Rat) ^ places)).toNat
          Decimal.positional units (-(places : Int))
      String.ofList (if negative then '-' :: body else body)

end Double
end AccessAudit
