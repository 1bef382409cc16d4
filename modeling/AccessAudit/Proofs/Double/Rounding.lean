import AccessAudit.Proofs.Double.Order

/-!
# Rounding to the nearest number

An exact value is rounded on the grid of its exponent.  On that grid a rank and a value correspond, also where
the exponent changes; so rounding leaves the numbers of the format as they are, and it keeps the order of
values.  Whole numbers up to 2 to the power of 53 are numbers of the format, and a quotient of two of them
that is not less than a number is not rounded below it.
-/

namespace AccessAudit
namespace Decimal

/-! ### Powers of two -/

theorem floorLog2_spec
    {x : Rat}
    (hx : 0 < x) :
    (2 : Rat) ^ floorLog2 x ≤ x ∧ x < (2 : Rat) ^ (floorLog2 x + 1) := by
  have hden : (0 : Rat) < x.den := Nat.cast_pos.mpr x.den_pos
  have hnum : x.num.natAbs ≠ 0 := Int.natAbs_ne_zero.mpr (Rat.num_pos.mpr hx).ne'
  have hquotient : x * x.den = (x.num.natAbs : Rat) := by
    rw [Rat.mul_den_eq_num, ← Int.cast_natCast, Int.natAbs_of_nonneg (Rat.num_pos.mpr hx).le]
  -- the lengths of numerator and denominator bound the quotient within two powers
  have hlow : (2 : Rat) ^ ((x.num.natAbs.log2 : Int)) ≤ x.num.natAbs := by
    rw [zpow_natCast]
    exact_mod_cast Nat.log2_self_le hnum
  have hhigh : (x.num.natAbs : Rat) < (2 : Rat) ^ ((x.num.natAbs.log2 : Int) + 1) := by
    rw [← Nat.cast_succ, zpow_natCast]
    exact_mod_cast Nat.lt_log2_self
  have hlow' : (2 : Rat) ^ ((x.den.log2 : Int)) ≤ x.den := by
    rw [zpow_natCast]
    exact_mod_cast Nat.log2_self_le x.den_nz
  have hhigh' : (x.den : Rat) < (2 : Rat) ^ ((x.den.log2 : Int) + 1) := by
    rw [← Nat.cast_succ, zpow_natCast]
    exact_mod_cast Nat.lt_log2_self
  generalize hn : (x.num.natAbs.log2 : Int) = n at *
  generalize hd : (x.den.log2 : Int) = d at *
  have habove : x < (2 : Rat) ^ (n - d + 1) := by
    refine lt_of_mul_lt_mul_right (a := (x.den : Rat)) ?_ hden.le
    calc x * x.den
        < (2 : Rat) ^ (n + 1) := by rwa [hquotient]
      _ = (2 : Rat) ^ (n - d + 1) * (2 : Rat) ^ d := by
          rw [← zpow_add₀ two_ne_zero]
          congr 1
          omega
      _ ≤ (2 : Rat) ^ (n - d + 1) * x.den := by gcongr
  have hbelow : (2 : Rat) ^ (n - d - 1) ≤ x := by
    refine le_of_mul_le_mul_right (a := (x.den : Rat)) ?_ hden
    calc (2 : Rat) ^ (n - d - 1) * x.den
        ≤ (2 : Rat) ^ (n - d - 1) * (2 : Rat) ^ (d + 1) := by gcongr
      _ = (2 : Rat) ^ n := by
          rw [← zpow_add₀ two_ne_zero]
          congr 1
          omega
      _ ≤ x * x.den := by rwa [hquotient]
  unfold floorLog2
  rw [hn, hd]
  dsimp only
  split
  · next hguess => exact ⟨hguess, habove⟩
  · next hguess => exact ⟨hbelow, by simpa using hguess⟩

/-! ### Whole numbers -/

theorem roundEven_intCast
    (n : Int) :
    roundEven n = n := by
  unfold roundEven
  simp [Rat.floor_intCast]

theorem roundEven_mono : Monotone roundEven := by
  intro x y hxy
  have hfloor : x.floor ≤ y.floor := Rat.floor_monotone hxy
  unfold roundEven
  dsimp only
  rcases hfloor.lt_or_eq with hlt | heq
  · split_ifs <;> omega
  · rw [heq]
    split_ifs <;> first | omega | (exfalso; linarith)

theorem le_roundEven
    {n : Int}
    {x : Rat}
    (h : (n : Rat) ≤ x) :
    n ≤ roundEven x :=
  (roundEven_intCast n).ge.trans (roundEven_mono h)

theorem roundEven_le
    {n : Int}
    {x : Rat}
    (h : x ≤ n) :
    roundEven x ≤ n :=
  (roundEven_mono h).trans (roundEven_intCast n).le

end Decimal

namespace Double

open Decimal (floorLog2 floorLog2_spec roundEven)

/-! ### The grid of an exponent -/

/-- The exponent of the grid on which a value is rounded. -/
def gridExponent (x : Rat) : Int :=
  max (floorLog2 x - 52) (-1074)

theorem nearestRank_eq
    {x : Rat}
    (hx : 0 < x) :
    nearestRank x =
      min ((gridExponent x + 1074).toNat * fractionCount +
        (roundEven (x / (2 : Rat) ^ gridExponent x)).toNat) infiniteRank := by
  unfold nearestRank
  rw [if_neg hx.not_ge]
  rfl

/-- The values of an exponent: less than twice the number of fractions, and, unless the exponent is the least
one, not less than that number. -/
structure OnGrid (e : Int) (x : Rat) : Prop where
  least_le : -1074 ≤ e
  lt : x / (2 : Rat) ^ e < 2 * fractionCount
  le : e = -1074 ∨ (fractionCount : Rat) ≤ x / (2 : Rat) ^ e

theorem onGrid_iff
    {e : Int}
    {x : Rat} :
    OnGrid e x ↔
      -1074 ≤ e ∧ x < (2 : Rat) ^ (e + 53) ∧ (e = -1074 ∨ (2 : Rat) ^ (e + 52) ≤ x) := by
  have hcount : (fractionCount : Rat) = (2 : Rat) ^ (52 : Int) := by norm_num [fractionCount]
  have htwice : 2 * (fractionCount : Rat) = (2 : Rat) ^ (53 : Int) := by norm_num [fractionCount]
  have hpos : (0 : Rat) < (2 : Rat) ^ e := zpow_pos two_pos e
  have hlt : x / (2 : Rat) ^ e < 2 * fractionCount ↔ x < (2 : Rat) ^ (e + 53) := by
    rw [div_lt_iff₀ hpos, htwice, ← zpow_add₀ two_ne_zero, add_comm]
  have hle : (fractionCount : Rat) ≤ x / (2 : Rat) ^ e ↔ (2 : Rat) ^ (e + 52) ≤ x := by
    rw [le_div_iff₀ hpos, hcount, ← zpow_add₀ two_ne_zero, add_comm]
  constructor
  · rintro ⟨hleast, hx, hx'⟩
    exact ⟨hleast, hlt.mp hx, hx'.imp_right hle.mp⟩
  · rintro ⟨hleast, hx, hx'⟩
    exact ⟨hleast, hlt.mpr hx, hx'.imp_right hle.mpr⟩

theorem onGrid_gridExponent
    {x : Rat}
    (hx : 0 < x) :
    OnGrid (gridExponent x) x := by
  obtain ⟨hlow, hhigh⟩ := floorLog2_spec hx
  rw [onGrid_iff]
  unfold gridExponent
  refine ⟨le_max_right _ _, ?_, ?_⟩
  · refine hhigh.trans_le (zpow_le_zpow_right₀ one_le_two ?_)
    omega
  · rcases le_total (floorLog2 x - 52) (-1074) with hle | hle
    · exact .inl (max_eq_right hle)
    · right
      rwa [max_eq_left hle, Int.sub_add_cancel]

/-- A greater value is on no finer grid. -/
theorem OnGrid.exponent_le
    {e e' : Int}
    {x y : Rat}
    (h : OnGrid e x)
    (h' : OnGrid e' y)
    (hxy : x ≤ y) :
    e ≤ e' := by
  obtain ⟨-, -, hle⟩ := onGrid_iff.mp h
  obtain ⟨hleast', hlt', -⟩ := onGrid_iff.mp h'
  rcases hle with rfl | hle
  · exact hleast'
  · have hpower := (zpow_lt_zpow_iff_right₀ one_lt_two).mp (hle.trans_lt (hxy.trans_lt hlt'))
    omega

/-- Ranks and values correspond on a grid, its end included, where the next exponent begins. -/
theorem rankValue_grid
    {a s : Nat}
    (hlow : a = 0 ∨ fractionCount ≤ s)
    (hhigh : s ≤ 2 * fractionCount) :
    rankValue (a * fractionCount + s) = (s : Rat) * (2 : Rat) ^ ((a : Int) - 1074) := by
  have hsteps :
      steps ((a * fractionCount + s) / fractionCount) ((a * fractionCount + s) % fractionCount) =
        s * 2 ^ a := by
    rcases lt_or_ge s fractionCount with hs | hs
    · obtain rfl : a = 0 := by
          unfold fractionCount at *
          omega
      rw [Nat.zero_mul, Nat.zero_add, Nat.div_eq_of_lt hs, Nat.mod_eq_of_lt hs]
      simp [steps]
    · rcases hhigh.lt_or_eq with hs' | rfl
      · have hdiv : (a * fractionCount + s) / fractionCount = a + 1 := by
          unfold fractionCount at *
          omega
        have hmod : (a * fractionCount + s) % fractionCount = s - fractionCount := by
          unfold fractionCount at *
          omega
        rw [hdiv, hmod]
        simp [steps, Nat.sub_add_cancel hs]
      · have hdiv : (a * fractionCount + 2 * fractionCount) / fractionCount = a + 2 := by
          unfold fractionCount at *
          omega
        have hmod : (a * fractionCount + 2 * fractionCount) % fractionCount = 0 := by
          unfold fractionCount at *
          omega
        rw [hdiv, hmod]
        simp [steps, Nat.pow_succ', Nat.mul_left_comm, Nat.mul_assoc]
  rw [rankValue_eq_steps, hsteps, Nat.cast_mul, Nat.cast_pow, Nat.cast_ofNat, mul_assoc, ← zpow_natCast,
    ← zpow_add₀ two_ne_zero, sub_eq_add_neg]

theorem exists_grid
    (rank : Nat) :
    ∃ a s, rank = a * fractionCount + s ∧ (a = 0 ∨ fractionCount ≤ s) ∧ s < 2 * fractionCount := by
  unfold fractionCount
  rcases lt_or_ge rank 0x10000000000000 with hrank | hrank
  · exact ⟨0, rank, by omega, .inl rfl, by omega⟩
  · refine ⟨rank / 0x10000000000000 - 1, rank % 0x10000000000000 + 0x10000000000000, ?_, .inr ?_, ?_⟩
    · omega
    · omega
    · omega

/-! ### Rounding -/

/-- A number of the format is its own nearest number. -/
theorem nearestRank_rankValue
    {rank : Nat}
    (h : rank ≤ infiniteRank) :
    nearestRank (rankValue rank) = rank := by
  obtain ⟨a, s, rfl, hlow, hhigh⟩ := exists_grid rank
  rw [rankValue_grid hlow hhigh.le]
  rcases Nat.eq_zero_or_pos s with rfl | hs
  · obtain rfl : a = 0 := by
      have hcount : 0 < fractionCount := by decide
      omega
    simp [nearestRank]
  · have hpos : (0 : Rat) < (2 : Rat) ^ ((a : Int) - 1074) := zpow_pos two_pos _
    have hquotient : (s : Rat) * (2 : Rat) ^ ((a : Int) - 1074) / (2 : Rat) ^ ((a : Int) - 1074) = s :=
      mul_div_cancel_right₀ _ hpos.ne'
    have hx : (0 : Rat) < (s : Rat) * (2 : Rat) ^ ((a : Int) - 1074) :=
      mul_pos (Nat.cast_pos.mpr hs) hpos
    have hgrid : OnGrid ((a : Int) - 1074) ((s : Rat) * (2 : Rat) ^ ((a : Int) - 1074)) := by
      refine ⟨by omega, ?_, ?_⟩
      · rw [hquotient]
        exact_mod_cast hhigh
      · rw [hquotient]
        refine hlow.imp (fun ha => by omega) fun hle => Nat.cast_le.mpr hle
    have hexponent : gridExponent ((s : Rat) * (2 : Rat) ^ ((a : Int) - 1074)) = (a : Int) - 1074 :=
      le_antisymm ((onGrid_gridExponent hx).exponent_le hgrid le_rfl)
        (hgrid.exponent_le (onGrid_gridExponent hx) le_rfl)
    have hround : roundEven (s : Rat) = s := mod_cast Decimal.roundEven_intCast s
    rw [nearestRank_eq hx, hexponent, hquotient, hround, Int.sub_add_cancel, Int.toNat_natCast,
      Int.toNat_natCast, Nat.min_eq_left h]

/-- Rounding keeps the order of values. -/
theorem monotone_nearestRank : Monotone nearestRank := by
  intro x y hxy
  rcases le_or_gt x 0 with hx | hx
  · have hzero : nearestRank x = 0 := if_pos hx
    rw [hzero]
    exact Nat.zero_le _
  · have hy : 0 < y := hx.trans_le hxy
    have hexponent := (onGrid_gridExponent hx).exponent_le (onGrid_gridExponent hy) hxy
    obtain ⟨hleast, hlt, -⟩ := onGrid_gridExponent hx
    obtain ⟨-, -, hle'⟩ := onGrid_gridExponent hy
    rw [nearestRank_eq hx, nearestRank_eq hy]
    refine min_le_min_right infiniteRank ?_
    generalize gridExponent x = e at *
    generalize gridExponent y = e' at *
    rcases hexponent.lt_or_eq with hless | rfl
    · -- the first steps of the coarser grid lie above the last ones of the finer grid
      have hsteps : roundEven (x / (2 : Rat) ^ e) ≤ 2 * fractionCount :=
        Decimal.roundEven_le (by exact_mod_cast hlt.le)
      have hsteps' : (fractionCount : Int) ≤ roundEven (y / (2 : Rat) ^ e') :=
        Decimal.le_roundEven (by exact_mod_cast hle'.resolve_left (by omega))
      unfold fractionCount at *
      omega
    · have hsteps : roundEven (x / (2 : Rat) ^ e) ≤ roundEven (y / (2 : Rat) ^ e) :=
        Decimal.roundEven_mono (div_le_div_of_nonneg_right hxy (zpow_pos two_pos e).le)
      omega

/-! ### Whole numbers and their quotients -/

theorem exists_rankValue_eq
    (a : Nat)
    {s : Nat}
    (hs : s ≤ 2 * fractionCount) :
    ∃ rank ≤ (a + 2) * fractionCount, rankValue rank = (s : Rat) * (2 : Rat) ^ ((a : Int) - 1074) := by
  induction a generalizing s with
  | zero => exact ⟨0 * fractionCount + s, by omega, rankValue_grid (.inl rfl) hs⟩
  | succ a ih =>
      rcases lt_or_ge s fractionCount with hlt | hge
      · -- on a finer grid there are twice as many steps
        obtain ⟨rank, hrank, hvalue⟩ := ih (s := 2 * s) (by omega)
        refine ⟨rank, hrank.trans (Nat.mul_le_mul_right _ (by omega)), ?_⟩
        have hexponent : ((a + 1 : Nat) : Int) - 1074 = 1 + ((a : Int) - 1074) := by omega
        rw [hvalue, hexponent, zpow_add₀ two_ne_zero, zpow_one, Nat.cast_mul, Nat.cast_ofNat]
        ring
      · refine ⟨(a + 1) * fractionCount + s, ?_, rankValue_grid (.inr hge) hs⟩
        rw [Nat.add_mul (a + 1)]
        omega

/-- Whole numbers up to 2 to the power of 53 are numbers of the format. -/
theorem rankValue_nearestRank_natCast
    {n : Nat}
    (h : n ≤ 2 ^ 53) :
    rankValue (nearestRank n) = n := by
  obtain ⟨rank, hrank, hvalue⟩ := exists_rankValue_eq 1074 (s := n) h
  rw [Nat.cast_ofNat, sub_self, zpow_zero, mul_one] at hvalue
  rw [← hvalue, nearestRank_rankValue (hrank.trans (by decide))]

theorem nearestRank_natCast_pos
    {n : Nat}
    (h : 0 < n) :
    0 < nearestRank n := by
  have hone : nearestRank 1 ≠ 0 := by
    intro hzero
    have hvalue := rankValue_nearestRank_natCast (n := 1) (by decide)
    rw [Nat.cast_one, hzero, rankValue_zero] at hvalue
    exact zero_ne_one hvalue
  exact (Nat.pos_of_ne_zero hone).trans_le (monotone_nearestRank (Nat.one_le_cast.mpr h))

theorem nearestRank_natCast_lt
    {n : Nat}
    (h : n ≤ 2 ^ 63) :
    nearestRank n < infiniteRank := by
  have hle : (n : Rat) ≤ rankValue (1086 * fractionCount) := by
    rw [rankValue_two_pow_63]
    exact_mod_cast h
  calc nearestRank n
      ≤ nearestRank (rankValue (1086 * fractionCount)) := monotone_nearestRank hle
    _ = 1086 * fractionCount := nearestRank_rankValue (by decide)
    _ < infiniteRank := by decide

theorem ofInt_natCast
    (n : Nat) :
    ofInt n = signed false (nearestRank n) (nearestRank_le n) := by
  unfold ofInt ofRat
  rw [Int.cast_natCast]
  rcases Nat.eq_zero_or_pos n with rfl | hn
  · simp [zero, nearestRank]
  · have hpos : (0 : Rat) < n := Nat.cast_pos.mpr hn
    rw [if_neg hpos.ne', if_neg hpos.not_gt]

/-- The quotient of two counts. -/
theorem div_ofInt_natCast
    {m n : Nat}
    (hm : m ≤ 2 ^ 63)
    (hn : n ≤ 2 ^ 63)
    (hpos : 0 < n) :
    ofInt m / ofInt n =
      signed false (nearestRank (rankValue (nearestRank m) / rankValue (nearestRank n)))
        (nearestRank_le _) := by
  rw [ofInt_natCast, ofInt_natCast]
  change div _ _ = _
  unfold div
  dsimp only
  rw [if_neg (nearestRank_natCast_lt hm).ne, if_neg (nearestRank_natCast_lt hn).ne,
    if_neg (nearestRank_natCast_pos hpos).ne']
  rfl

/-- If the rounded quotient of two counts is less than a number, then so is the exact one. -/
theorem quotient_lt_of_lt
    {m n : Nat}
    (hm : m ≤ 2 ^ 53)
    (hn : n ≤ 2 ^ 53)
    (hpos : 0 < n)
    {t : Double}
    {r : Rat}
    (ht : t.toRat? = some r)
    (hlt : (ofInt m / ofInt n).lt t = true) :
    (m : Rat) / n < r := by
  rw [div_ofInt_natCast (hm.trans (by decide)) (hn.trans (by decide)) hpos,
    rankValue_nearestRank_natCast hm, rankValue_nearestRank_natCast hn] at hlt
  cases t with
  | nan => cases ht
  | signed negative rank hrank =>
      have hvalue := rankValue_of_toRat? ht
      cases negative with
      | true =>
          simp only [lt, place?, decide_eq_true_iff, if_neg Bool.false_ne_true, if_true] at hlt
          omega
      | false =>
          rw [if_neg Bool.false_ne_true] at hvalue
          have hless : nearestRank ((m : Rat) / n) < rank := by
            simpa [lt, place?] using hlt
          by_contra hle
          have hmono := monotone_nearestRank (not_lt.mp hle)
          rw [← hvalue, nearestRank_rankValue hrank] at hmono
          exact hmono.not_gt hless

end Double
end AccessAudit
