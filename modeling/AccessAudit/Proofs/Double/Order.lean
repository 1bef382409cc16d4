import AccessAudit.Double
import Mathlib

/-!
# The order of floating-point numbers is the order of their values

The format counts its non-negative numbers in the order of their values: from one rank to the next the
value grows by one step of the exponent, also where the exponent grows.  With the infinities at the ends
this makes the places of two numbers stand as their values do.
-/

namespace AccessAudit
namespace Double

/-! ### Ranks -/

/-- A number of the format in steps of its least positive one, by its exponent and its fraction. -/
def steps (exponent fraction : Nat) : Nat :=
  if exponent = 0 then fraction else (fraction + fractionCount) * 2 ^ (exponent - 1)

theorem rankValue_eq_steps
    (rank : Nat) :
    rankValue rank =
      (steps (rank / fractionCount) (rank % fractionCount) : Rat) * (2 : Rat) ^ (-1074 : Int) := by
  unfold rankValue steps
  dsimp only
  generalize rank / fractionCount = exponent
  split
  · rfl
  · next hexponent =>
      have hsplit : (exponent : Int) - 1075 = ((exponent - 1 : Nat) : Int) + (-1074) := by omega
      rw [hsplit, zpow_add₀ (two_ne_zero' Rat), zpow_natCast, Nat.cast_mul, Nat.cast_pow,
        Nat.cast_ofNat, mul_assoc]

theorem steps_lt_next_fraction
    (exponent fraction : Nat) :
    steps exponent fraction < steps exponent (fraction + 1) := by
  unfold steps
  split
  · exact Nat.lt_succ_self fraction
  · exact Nat.mul_lt_mul_of_pos_right (by omega) (Nat.two_pow_pos _)

/-- The last number with an exponent lies below the first one with the next exponent. -/
theorem steps_lt_next_exponent
    (exponent : Nat) :
    steps exponent (fractionCount - 1) < steps (exponent + 1) 0 := by
  have hcount : 0 < fractionCount := by decide
  cases exponent with
  | zero =>
      simp only [steps, if_true, Nat.zero_add, Nat.one_ne_zero, if_false, Nat.sub_self, Nat.pow_zero,
        Nat.mul_one]
      omega
  | succ n =>
      simp only [steps, Nat.succ_ne_zero, if_false, Nat.add_sub_cancel, Nat.zero_add]
      rw [Nat.pow_succ', ← Nat.mul_assoc]
      exact Nat.mul_lt_mul_of_pos_right (by omega) (Nat.two_pow_pos n)

theorem rankValue_lt_succ
    (rank : Nat) :
    rankValue rank < rankValue (rank + 1) := by
  have hpos : (0 : Rat) < (2 : Rat) ^ (-1074 : Int) := zpow_pos two_pos _
  rw [rankValue_eq_steps, rankValue_eq_steps]
  refine mul_lt_mul_of_pos_right (Nat.cast_lt.mpr ?_) hpos
  -- the exponent grows after the last fraction
  by_cases hlast : rank % fractionCount = fractionCount - 1
  · have hdiv : (rank + 1) / fractionCount = rank / fractionCount + 1 := by
      unfold fractionCount at *
      omega
    have hmod : (rank + 1) % fractionCount = 0 := by
      unfold fractionCount at *
      omega
    rw [hdiv, hmod, hlast]
    exact steps_lt_next_exponent _
  · have hdiv : (rank + 1) / fractionCount = rank / fractionCount := by
      unfold fractionCount at *
      omega
    have hmod : (rank + 1) % fractionCount = rank % fractionCount + 1 := by
      unfold fractionCount at *
      omega
    rw [hdiv, hmod]
    exact steps_lt_next_fraction _ _

/-- A number of a greater rank is greater. -/
theorem strictMono_rankValue : StrictMono rankValue :=
  strictMono_nat_of_lt_succ rankValue_lt_succ

theorem rankValue_zero : rankValue 0 = 0 := by
  rw [rankValue_eq_steps]
  simp [steps, fractionCount]

theorem rankValue_nonneg
    (rank : Nat) :
    0 ≤ rankValue rank := by
  rw [← rankValue_zero]
  exact strictMono_rankValue.monotone (Nat.zero_le rank)

/-! ### Places -/

/-- The value of the number at a place, as if the format had no infinities. -/
def placeValue (place : Int) : Rat :=
  if place < 0 then -(rankValue place.natAbs) else rankValue place.natAbs

theorem placeValue_natCast
    (rank : Nat) :
    placeValue rank = rankValue rank :=
  if_neg (by omega)

theorem placeValue_neg_natCast
    (rank : Nat) :
    placeValue (-(rank : Int)) = -(rankValue rank) := by
  cases rank with
  | zero => simp [placeValue, rankValue_zero]
  | succ n =>
      unfold placeValue
      rw [if_pos (by omega), Int.natAbs_neg, Int.natAbs_natCast]

theorem strictMono_placeValue : StrictMono placeValue := by
  intro i j hij
  unfold placeValue
  by_cases hi : i < 0
  · rw [if_pos hi]
    by_cases hj : j < 0
    · rw [if_pos hj]
      exact neg_lt_neg (strictMono_rankValue (by omega))
    · rw [if_neg hj]
      have hpos : rankValue 0 < rankValue i.natAbs := strictMono_rankValue (by omega)
      rw [rankValue_zero] at hpos
      exact (neg_lt_zero.mpr hpos).trans_le (rankValue_nonneg _)
  · rw [if_neg hi, if_neg (by omega)]
    exact strictMono_rankValue (by omega)

/-- The value of the number at a place, with infinities at the ends. -/
def extendedValue (place : Int) : WithBot (WithTop Rat) :=
  if place = -(infiniteRank : Int) then ⊥
  else if place = (infiniteRank : Int) then ((⊤ : WithTop Rat) : WithBot (WithTop Rat))
  else ((placeValue place : WithTop Rat) : WithBot (WithTop Rat))

theorem extendedValue_infiniteRank :
    extendedValue infiniteRank = ((⊤ : WithTop Rat) : WithBot (WithTop Rat)) := by
  unfold extendedValue
  rw [if_neg (by decide), if_pos rfl]

theorem extendedValue_neg_infiniteRank :
    extendedValue (-(infiniteRank : Int)) = ⊥ :=
  if_pos rfl

theorem extendedValue_of_lt
    {place : Int}
    (hlow : -(infiniteRank : Int) < place)
    (hhigh : place < infiniteRank) :
    extendedValue place = ((placeValue place : WithTop Rat) : WithBot (WithTop Rat)) := by
  unfold extendedValue
  rw [if_neg hlow.ne', if_neg hhigh.ne]

theorem strictMonoOn_extendedValue :
    StrictMonoOn extendedValue (Set.Icc (-(infiniteRank : Int)) infiniteRank) := by
  rintro i ⟨hi, hi'⟩ j ⟨hj, hj'⟩ hij
  unfold extendedValue
  rw [if_neg (show j ≠ -(infiniteRank : Int) by omega)]
  by_cases hleast : i = -(infiniteRank : Int)
  · rw [if_pos hleast]
    split
    · exact WithBot.bot_lt_coe _
    · exact WithBot.bot_lt_coe _
  · rw [if_neg hleast, if_neg (show i ≠ (infiniteRank : Int) by omega)]
    split
    · exact WithBot.coe_lt_coe.mpr (WithTop.coe_lt_top _)
    · exact WithBot.coe_lt_coe.mpr (WithTop.coe_lt_coe.mpr (strictMono_placeValue hij))

/-! ### Numbers -/

/-- The value of a number, infinities included.  NaN has none and is put beside infinity. -/
def value (x : Double) : WithBot (WithTop Rat) :=
  match x.toRat? with
  | some r => ((r : WithTop Rat) : WithBot (WithTop Rat))
  | none => if x.isNegative then ⊥ else ((⊤ : WithTop Rat) : WithBot (WithTop Rat))

theorem place_mem_Icc
    (negative : Bool)
    {rank : Nat}
    (hrank : rank ≤ infiniteRank) :
    (if negative then -(rank : Int) else rank) ∈
      Set.Icc (-(infiniteRank : Int)) infiniteRank := by
  rw [Set.mem_Icc]
  split
  · omega
  · omega

theorem value_signed
    (negative : Bool)
    {rank : Nat}
    (hrank : rank ≤ infiniteRank) :
    (signed negative rank hrank).value =
      extendedValue (if negative then -(rank : Int) else rank) := by
  have hinfinite : 0 < infiniteRank := by decide
  by_cases hlast : rank = infiniteRank
  · subst hlast
    cases negative with
    | false =>
        rw [if_neg Bool.false_ne_true, extendedValue_infiniteRank]
        simp [value, toRat?, isNegative]
    | true =>
        rw [if_pos rfl, extendedValue_neg_infiniteRank]
        simp [value, toRat?, isNegative]
  · cases negative with
    | false =>
        rw [if_neg Bool.false_ne_true, extendedValue_of_lt (by omega) (by omega), placeValue_natCast]
        simp [value, toRat?, hlast]
    | true =>
        rw [if_pos rfl, extendedValue_of_lt (by omega) (by omega), placeValue_neg_natCast]
        simp [value, toRat?, hlast]

/-- One number is less than another if and only if its value is. -/
theorem lt_iff_value_lt
    {x y : Double}
    (hx : x ≠ .nan)
    (hy : y ≠ .nan) :
    x.lt y = true ↔ x.value < y.value := by
  cases x with
  | nan => exact absurd rfl hx
  | signed negative rank hrank =>
      cases y with
      | nan => exact absurd rfl hy
      | signed negative' rank' hrank' =>
          rw [value_signed, value_signed,
            strictMonoOn_extendedValue.lt_iff_lt (place_mem_Icc negative hrank)
              (place_mem_Icc negative' hrank')]
          simp only [lt, place?, decide_eq_true_iff]

/-! ### The ends of 64 bits -/

/-- The number -2 to the power of 63. -/
def leastInt64 : Double :=
  .signed true (1086 * fractionCount) (by decide)

theorem rankValue_two_pow_63 : rankValue (1086 * fractionCount) = 9223372036854775808 := by
  decide +kernel

/-- The number below 2 to the power of 63 is less by 1024. -/
theorem rankValue_below_two_pow_63 :
    rankValue (1086 * fractionCount - 1) = 9223372036854774784 := by
  decide +kernel

theorem rankValue_of_toRat?
    {negative : Bool}
    {rank : Nat}
    {hrank : rank ≤ infiniteRank}
    {r : Rat}
    (h : (signed negative rank hrank).toRat? = some r) :
    rankValue rank = if negative then -r else r := by
  unfold toRat? at h
  dsimp only at h
  split at h
  · cases h
  · cases h
    cases negative <;> simp

/-- No number of the format has the greatest value of 64 bits. -/
theorem toRat?_ne_int64Max
    (x : Double) :
    x.toRat? ≠ some 9223372036854775807 := by
  intro h
  cases x with
  | nan => cases h
  | signed negative rank hrank =>
      have hvalue := rankValue_of_toRat? h
      cases negative with
      | true =>
          have hnonneg := rankValue_nonneg rank
          rw [if_pos rfl] at hvalue
          linarith
      | false =>
          rw [if_neg Bool.false_ne_true] at hvalue
          have hbelow : rank < 1086 * fractionCount := by
            rw [← strictMono_rankValue.lt_iff_lt, rankValue_two_pow_63, hvalue]
            norm_num
          have hle := strictMono_rankValue.monotone (Nat.le_sub_one_of_lt hbelow)
          rw [rankValue_below_two_pow_63, hvalue] at hle
          norm_num at hle

theorem eq_leastInt64
    {x : Double}
    (h : x.toRat? = some (-9223372036854775808)) :
    x = leastInt64 := by
  cases x with
  | nan => cases h
  | signed negative rank hrank =>
      have hvalue := rankValue_of_toRat? h
      cases negative with
      | false =>
          have hnonneg := rankValue_nonneg rank
          rw [if_neg Bool.false_ne_true] at hvalue
          linarith
      | true =>
          rw [if_pos rfl, neg_neg, ← rankValue_two_pow_63] at hvalue
          obtain rfl := strictMono_rankValue.injective hvalue
          rfl

/-- Two numbers of which neither is less are the same, or they are the two zeros. -/
theorem eq_of_not_lt
    {x y : Double}
    (hx : x ≠ .nan)
    (hy : y ≠ .nan)
    (hxy : x.lt y = false)
    (hyx : y.lt x = false) :
    x = y ∨ x.toRat? = some 0 := by
  cases x with
  | nan => exact absurd rfl hx
  | signed negative rank hrank =>
      cases y with
      | nan => exact absurd rfl hy
      | signed negative' rank' hrank' =>
          simp only [lt, place?, decide_eq_false_iff_not] at hxy hyx
          by_cases hzero : rank = 0
          · subst hzero
            right
            cases negative <;> simp [toRat?, rankValue_zero, infiniteRank, fractionCount]
          · left
            have hsame : negative = negative' ∧ rank = rank' := by
              cases negative <;> cases negative' <;> simp at hxy hyx ⊢ <;> omega
            obtain ⟨rfl, rfl⟩ := hsame
            rfl

end Double
end AccessAudit
