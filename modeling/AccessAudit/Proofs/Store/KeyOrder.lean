import AccessAudit.Proofs.Double.Order
import AccessAudit.Proofs.Store.Grouping
import AccessAudit.Store.Value
import Mathlib.Data.String.Basic
import Mathlib.Data.Sum.Order

/-!
# Keys of the log are ordered by ranks

The rows of the log are gathered by sources and by user ids.  Sources are cells, which have a linear order and
are their own ranks.  A user id has its value as its rank if it is a number, and comes after all numbers if it is
a cell.  Two user ids may have one value, a whole number and a floating-point number; where no such two occur,
rows can be told apart by the ranks of their keys.
-/

namespace AccessAudit
namespace Store

/-! ### Cells -/

namespace Cell

/-- The rank of a cell: texts in their order, and after all of them bytes in theirs. -/
def rank : Cell → String ⊕ₗ List Nat
  | text s => toLex (.inl s)
  | bytes b => toLex (.inr (values b))

theorem values_injective : Function.Injective values :=
  List.map_injective_iff.mpr fun _ _ h => UInt8.toNat_inj.mp h

theorem rank_injective : Function.Injective rank := by
  intro a b h
  cases a with
  | text s =>
      cases b with
      | text t => cases h; rfl
      | bytes d => cases h
  | bytes c =>
      cases b with
      | text t => cases h
      | bytes d => rw [values_injective (Sum.inr.inj (toLex.injective h))]

theorem isLe_iff_rank_le
    {a b : Cell} :
    isLe a b = true ↔ a.rank ≤ b.rank := by
  cases a with
  | text s =>
      cases b with
      | text t => simp [isLe, rank]
      | bytes d => simp [isLe, rank]
  | bytes c =>
      cases b with
      | text t => simp [isLe, rank]
      | bytes d =>
          rw [isLe, Bool.not_eq_true', List.lex_eq_false_iff_ge, rank, rank, Sum.Lex.toLex_le_toLex,
            Sum.lex_inr_inr]
          exact not_lt

instance : LinearOrder Cell where
  le_refl _ := isLe_iff_rank_le.mpr le_rfl
  le_trans _ _ _ hab hbc := isLe_iff_rank_le.mpr ((isLe_iff_rank_le.mp hab).trans (isLe_iff_rank_le.mp hbc))
  le_antisymm _ _ hab hba := rank_injective ((isLe_iff_rank_le.mp hab).antisymm (isLe_iff_rank_le.mp hba))
  le_total _ _ := (le_total _ _).imp isLe_iff_rank_le.mpr isLe_iff_rank_le.mpr
  lt_iff_le_not_ge a b := by
    change isLe b a = false ↔ isLe a b = true ∧ ¬isLe b a = true
    rw [Bool.not_eq_true]
    refine ⟨fun h => ⟨?_, h⟩, And.right⟩
    rw [isLe_iff_rank_le]
    refine (le_total _ _).resolve_right fun hba => ?_
    rw [isLe_iff_rank_le.mpr hba] at h
    cases h
  toDecidableLE := inferInstance
  toDecidableLT := inferInstance

end Cell

/-- Texts, and cells, in their order. -/
theorem ranked_textLe
    {α : Type}
    [LinearOrder α]
    [d : DecidableLE α] :
    Ranked (@textLe α _ d) id (fun _ => True) where
  le_iff a b _ _ := by simp [textLe]
  inj a b _ _ h := h

/-- Cells in their order. -/
theorem ranked_cells : Ranked (textLe : Cell → Cell → Bool) id (fun _ => True) :=
  ranked_textLe

/-- Whole numbers in their order. -/
theorem ranked_int : Ranked (fun a b : Int => decide (a ≤ b)) id (fun _ => True) where
  le_iff a b _ _ := by simp
  inj a b _ _ h := h

/-! ### User ids -/

/-- User ids of which no two have the same value without being the same. -/
def Discerned (uids : List Uid) : Prop :=
  ∀ a ∈ uids, ∀ b ∈ uids, a.le b = true → b.le a = true → a = b

/-- The rank of a user id: the value of a number, and after all numbers a cell. -/
def Uid.rank : Uid → WithBot (WithTop Rat) ⊕ₗ Cell
  | .integer n => toLex (.inl (((n : Rat) : WithTop Rat) : WithBot (WithTop Rat)))
  | .real x => toLex (.inl x.value)
  | .text c => toLex (.inr c)

theorem doubleAtLeast_iff
    (x : Double)
    (r : Rat) :
    doubleAtLeast x r = true ↔ ((r : WithTop Rat) : WithBot (WithTop Rat)) ≤ x.value := by
  unfold doubleAtLeast Double.value
  cases x.toRat? with
  | some q => simp
  | none => cases x.isNegative <;> simp

theorem doubleAtMost_iff
    (x : Double)
    (r : Rat) :
    doubleAtMost x r = true ↔ x.value ≤ ((r : WithTop Rat) : WithBot (WithTop Rat)) := by
  unfold doubleAtMost Double.value
  cases x.toRat? with
  | some q => simp
  | none => cases x.isNegative <;> simp

theorem le_nan (x : Double) : (Uid.real x).le (.real .nan) = true := by
  cases x <;> rfl

theorem nan_le (x : Double) : (Uid.real .nan).le (.real x) = true := by
  cases x <;> rfl

/-- Numbers that are no NaN are ordered by their values, and texts come after all numbers. -/
theorem Uid.le_iff_rank_le_of_ne_nan
    {a b : Uid}
    (h : ∀ x y, a = .real x → b = .real y → x ≠ .nan ∧ y ≠ .nan) :
    a.le b = true ↔ a.rank ≤ b.rank := by
  cases a with
  | integer n =>
      cases b with
      | integer m => simp [Uid.le, Uid.rank]
      | real y => simp [Uid.le, Uid.rank, doubleAtLeast_iff]
      | text t => simp [Uid.le, Uid.rank]
  | real x =>
      cases b with
      | integer m => simp [Uid.le, Uid.rank, doubleAtMost_iff]
      | real y =>
          obtain ⟨hx, hy⟩ := h x y rfl rfl
          have hlt := Double.lt_iff_value_lt hy hx
          simp only [Uid.le, Uid.rank, Bool.not_eq_true', ← Bool.not_eq_true, hlt, not_lt]
          simp
      | text t => simp [Uid.le, Uid.rank]
  | text s =>
      cases b with
      | integer m => simp [Uid.le, Uid.rank]
      | real y => simp [Uid.le, Uid.rank]
      | text t => simp [Uid.le, Uid.rank]

theorem Uid.le_iff_rank_le
    {uids : List Uid}
    (h : Discerned uids)
    {a b : Uid}
    (ha : a ∈ uids)
    (hb : b ∈ uids) :
    a.le b = true ↔ a.rank ≤ b.rank := by
  by_cases hnan : ∃ x y, a = .real x ∧ b = .real y ∧ (x = .nan ∨ y = .nan)
  · obtain ⟨x, y, rfl, rfl, hnan⟩ := hnan
    -- NaN passes for equal to every floating-point number, so it would be the only one
    have heq : Uid.real x = Uid.real y := by
      rcases hnan with rfl | rfl
      · exact h _ ha _ hb (nan_le y) (le_nan y)
      · exact h _ ha _ hb (le_nan x) (nan_le x)
    cases heq
    rcases hnan with rfl | rfl <;> simp [le_nan]
  · exact Uid.le_iff_rank_le_of_ne_nan fun x y hx hy => not_or.mp fun h => hnan ⟨x, y, hx, hy, h⟩

theorem ranked_uids
    {uids : List Uid}
    (h : Discerned uids) :
    Ranked Uid.le Uid.rank (· ∈ uids) where
  le_iff _ _ ha hb := Uid.le_iff_rank_le h ha hb
  inj a b ha hb heq :=
    h a ha b hb ((Uid.le_iff_rank_le h ha hb).mpr heq.le) ((Uid.le_iff_rank_le h hb ha).mpr heq.ge)

theorem discerned_of_integers
    {uids : List Uid}
    (h : ∀ uid ∈ uids, ∃ n, uid = .integer n) :
    Discerned uids := by
  intro a ha b hb hab hba
  obtain ⟨n, rfl⟩ := h a ha
  obtain ⟨m, rfl⟩ := h b hb
  simp only [Uid.le, decide_eq_true_iff] at hab hba
  rw [le_antisymm hab hba]

theorem Uid.rank_integer_lt_iff
    {n m : Int} :
    (Uid.integer n).rank < (Uid.integer m).rank ↔ n < m := by
  simp [Uid.rank]

/-! ### Ids that a column holds -/

/-- What a column of whole numbers may hold: whole numbers of 64 bits, floating-point numbers that it does
not take for one of these, texts and bytes. -/
def Uid.Kept : Uid → Prop
  | .integer n => fitsInt64 n = true
  | .real x => x ≠ .nan ∧ Uid.ofDouble x = .real x
  | .text _ => True

/-- A whole number and a floating-point number have one value only at the lower end of 64 bits. -/
theorem Uid.least_of_same_value
    {n : Int}
    {x : Double}
    (hn : (Uid.integer n).Kept)
    (hx : (Uid.real x).Kept)
    (hle : (Uid.integer n).le (.real x) = true)
    (hge : (Uid.real x).le (.integer n) = true) :
    n = -9223372036854775808 ∧ x = .leastInt64 := by
  have hvalue : x.toRat? = some (n : Rat) := by
    simp only [Uid.le, doubleAtLeast, doubleAtMost] at hle hge
    cases hr : x.toRat? with
    | none =>
        simp only [hr] at hle hge
        rw [hge] at hle
        cases hle
    | some r =>
        simp only [hr, decide_eq_true_iff] at hle hge
        rw [le_antisymm hle hge]
  have hbounds : -9223372036854775808 ≤ n ∧ n ≤ 9223372036854775807 := by
    simp only [Uid.Kept, fitsInt64, Bool.and_eq_true, decide_eq_true_iff] at hn
    unfold Decimal.int64Max at hn
    omega
  have houtside : ¬ (-9223372036854775807 ≤ n ∧ n < 9223372036854775807) := by
    intro hinside
    have hinteger : Uid.ofDouble x = .integer n := by
      simp [Uid.ofDouble, hvalue, Decimal.int64Max, hinside]
    rw [hx.2] at hinteger
    cases hinteger
  have hgreatest : n ≠ 9223372036854775807 := by
    rintro rfl
    exact Double.toRat?_ne_int64Max x (by simpa using hvalue)
  obtain rfl : n = -9223372036854775808 := by omega
  exact ⟨rfl, Double.eq_leastInt64 (by simpa using hvalue)⟩

theorem Uid.eq_of_reals
    {x y : Double}
    (hx : (Uid.real x).Kept)
    (hy : (Uid.real y).Kept)
    (hle : (Uid.real x).le (.real y) = true)
    (hge : (Uid.real y).le (.real x) = true) :
    x = y := by
  simp only [Uid.le, Bool.not_eq_true'] at hle hge
  rcases Double.eq_of_not_lt hx.1 hy.1 hge hle with heq | hzero
  · exact heq
  · have hinteger : Uid.ofDouble x = .integer 0 := by
      simp [Uid.ofDouble, hzero, Decimal.int64Max]
    rw [hx.2] at hinteger
    cases hinteger

/-- The ids in a column are discerned, unless the least whole number of 64 bits is among them both as such
and as a floating-point number. -/
theorem discerned_of_kept
    {uids : List Uid}
    (hkept : ∀ uid ∈ uids, uid.Kept)
    (hleast : ¬ (.integer (-9223372036854775808) ∈ uids ∧ .real .leastInt64 ∈ uids)) :
    Discerned uids := by
  intro a ha b hb hab hba
  cases a with
  | integer n =>
      cases b with
      | integer m =>
          simp only [Uid.le, decide_eq_true_iff] at hab hba
          rw [le_antisymm hab hba]
      | real y =>
          obtain ⟨rfl, rfl⟩ := Uid.least_of_same_value (hkept _ ha) (hkept _ hb) hab hba
          exact absurd ⟨ha, hb⟩ hleast
      | text t => cases hba
  | real x =>
      cases b with
      | integer m =>
          obtain ⟨rfl, rfl⟩ := Uid.least_of_same_value (hkept _ hb) (hkept _ ha) hba hab
          exact absurd ⟨hb, ha⟩ hleast
      | real y => rw [Uid.eq_of_reals (hkept _ ha) (hkept _ hb) hab hba]
      | text t => cases hba
  | text s =>
      cases b with
      | integer m => cases hab
      | real y => cases hab
      | text t =>
          simp only [Uid.le, decide_eq_true_iff] at hab hba
          rw [le_antisymm hab hba]

end Store
end AccessAudit
