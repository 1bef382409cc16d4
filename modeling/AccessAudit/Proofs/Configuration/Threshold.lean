import AccessAudit.Configuration
import AccessAudit.Proofs.Double.Rounding

/-!
# The range of the threshold

A threshold is meant to lie in the range from zero, which is left out, to one.  Both bounds are held up to the
distance from one to the next number: the number that follows one is accepted, and no number up to that
distance from zero is.
-/

namespace AccessAudit
namespace Double

/-- A number in the range from zero, which is left out, to one. -/
def InUnitRange (t : Double) : Prop :=
  ∃ x, t.toRat? = some x ∧ 0 < x ∧ x ≤ 1

/-- A number above the tolerance, and above one by no more than the tolerance. -/
def WithinTolerance (t : Double) : Prop :=
  ∃ x, t.toRat? = some x ∧ (2 : Rat) ^ (-52 : Int) < x ∧ x ≤ 1 + (2 : Rat) ^ (-52 : Int)

/-- A positive number that is not above the tolerance, or one above one by no more than the tolerance. -/
def NearEnds (t : Double) : Prop :=
  ∃ x, t.toRat? = some x ∧
    (0 < x ∧ x ≤ (2 : Rat) ^ (-52 : Int) ∨ 1 < x ∧ x ≤ 1 + (2 : Rat) ^ (-52 : Int))

/-- Away from the ends of the range the tolerance makes no difference. -/
theorem withinTolerance_iff
    {t : Double}
    (h : ¬t.NearEnds) :
    t.WithinTolerance ↔ t.InUnitRange := by
  have hpos : (0 : Rat) < (2 : Rat) ^ (-52 : Int) := by positivity
  constructor
  · rintro ⟨x, hx, hlow, hhigh⟩
    refine ⟨x, hx, hpos.trans hlow, not_lt.mp fun hgt => h ⟨x, hx, .inr ⟨hgt, hhigh⟩⟩⟩
  · rintro ⟨x, hx, hlow, hhigh⟩
    refine ⟨x, hx, not_le.mp fun hle => h ⟨x, hx, .inl ⟨hlow, hle⟩⟩, ?_⟩
    exact hhigh.trans (le_add_of_nonneg_right hpos.le)

/-! ### Comparisons -/

theorem lt_ofRat_iff
    {rank : Nat}
    {hrank : rank ≤ infiniteRank}
    {y : Rat} :
    (signed false rank hrank).lt (ofRat y) = true ↔ rank < nearestRank y := by
  rcases lt_trichotomy y 0 with hy | rfl | hy
  · have hzero : nearestRank y = 0 := if_pos hy.le
    have hround : ofRat y = signed true (nearestRank (-y)) (nearestRank_le _) := by
      rw [ofRat, if_neg hy.ne, if_pos hy]
    rw [hzero, hround]
    simp only [lt, place?, Bool.false_eq_true, if_false, if_true, decide_eq_true_iff]
    omega
  · have hzero : nearestRank 0 = 0 := if_pos le_rfl
    rw [hzero, ofRat, if_pos rfl]
    simp [lt, place?, zero]
  · have hround : ofRat y = signed false (nearestRank y) (nearestRank_le _) := by
      rw [ofRat, if_neg hy.ne', if_neg hy.not_gt]
    rw [hround]
    simp [lt, place?]

end Double

namespace Configuration

open Double

/-- The rank of the tolerance. -/
def toleranceRank : Nat := 971 * fractionCount

/-- The rank of one. -/
def oneRank : Nat := 1023 * fractionCount

theorem tolerance_eq : tolerance = signed false toleranceRank (by decide) := by
  decide +kernel

theorem ofInt_one : ofInt 1 = signed false oneRank (by decide) := by
  decide +kernel

theorem rankValue_toleranceRank : rankValue toleranceRank = (2 : Rat) ^ (-52 : Int) := by
  decide +kernel

theorem rankValue_next_exponent : rankValue (toleranceRank + fractionCount) = (2 : Rat) ^ (-51 : Int) := by
  decide +kernel

theorem rankValue_oneRank : rankValue oneRank = 1 := by
  decide +kernel

theorem rankValue_after_one : rankValue (oneRank + 1) = 1 + (2 : Rat) ^ (-52 : Int) := by
  decide +kernel

theorem rankValue_second_after_one : rankValue (oneRank + 2) = 1 + (2 : Rat) ^ (-51 : Int) := by
  decide +kernel

/-- A number that exceeds one by more than the tolerance exceeds it by at least twice as much. -/
theorem tolerance_lt_sub_one_iff
    {rank : Nat}
    (hrank : rank < infiniteRank) :
    tolerance.lt (signed false rank hrank.le - ofInt 1) = true ↔
      1 + (2 : Rat) ^ (-52 : Int) < rankValue rank := by
  have hsub : signed false rank hrank.le - ofInt 1 = ofRat (rankValue rank - 1) := by
    rw [ofInt_one]
    change sub _ _ = _
    rw [sub, neg, add, if_neg hrank.ne, if_neg (by decide)]
    simp [rankValue_oneRank, sub_eq_add_neg]
  rw [hsub, tolerance_eq, lt_ofRat_iff]
  constructor
  · intro hlt
    by_contra hle
    have hle : rankValue rank - 1 ≤ rankValue toleranceRank := by
      rw [rankValue_toleranceRank]
      linarith
    have hmono := monotone_nearestRank hle
    rw [nearestRank_rankValue (by decide)] at hmono
    exact hmono.not_gt hlt
  · intro hlt
    rw [← rankValue_after_one, strictMono_rankValue.lt_iff_lt] at hlt
    have hsecond : rankValue (oneRank + 2) ≤ rankValue rank :=
      strictMono_rankValue.monotone hlt
    have hle : rankValue (toleranceRank + fractionCount) ≤ rankValue rank - 1 := by
      rw [rankValue_next_exponent]
      rw [rankValue_second_after_one] at hsecond
      linarith
    have hmono := monotone_nearestRank hle
    rw [nearestRank_rankValue (by decide)] at hmono
    exact lt_of_lt_of_le (by decide) hmono

/-- A threshold is accepted if and only if it lies in the range up to the tolerance. -/
theorem acceptsThreshold_iff
    {t : Double} :
    acceptsThreshold t = true ↔ t.WithinTolerance := by
  have hpos : (0 : Rat) < (2 : Rat) ^ (-52 : Int) := by positivity
  rw [acceptsThreshold, Bool.and_eq_true, Bool.not_eq_true', ← Bool.not_eq_true]
  cases t with
  | nan => simp [WithinTolerance, toRat?, Double.lt, place?, tolerance_eq]
  | signed negative rank hrank =>
      cases negative with
      | true =>
          constructor
          · rintro ⟨hlow, -⟩
            simp only [tolerance_eq, Double.lt, place?, Bool.false_eq_true, if_false, if_true,
              decide_eq_true_iff] at hlow
            omega
          · rintro ⟨x, hx, hlow, -⟩
            have hvalue := rankValue_of_toRat? hx
            have hnonneg := rankValue_nonneg rank
            rw [hvalue, if_pos rfl] at hnonneg
            linarith
      | false =>
          have hlow : tolerance.lt (signed false rank hrank) = true ↔
              (2 : Rat) ^ (-52 : Int) < rankValue rank := by
            rw [← rankValue_toleranceRank, strictMono_rankValue.lt_iff_lt, tolerance_eq]
            simp [Double.lt, place?]
          rw [hlow]
          rcases hrank.lt_or_eq with hfinite | rfl
          · rw [tolerance_lt_sub_one_iff hfinite, not_lt]
            simp [WithinTolerance, toRat?, hfinite.ne]
          · have hexcess : tolerance.lt (infinity false - ofInt 1) = true := by decide +kernel
            have hexcess : tolerance.lt (signed false infiniteRank hrank - ofInt 1) = true := hexcess
            simp [WithinTolerance, toRat?, hexcess]

end Configuration
end AccessAudit
