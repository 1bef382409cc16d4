import AccessAudit.Proofs.Store.Grouping
import Mathlib

/-!
# Rankings

Rows are ranked by several criteria, of which the first that tells two rows apart decides.  Where each
criterion compares rows by ranks, they are ranked by these ranks in lexicographic order, and if no two rows
have the same ranks the ranking ascends strictly.  A limit keeps the first rows of it.
-/

namespace AccessAudit
namespace Store

variable {α κ ρ τ : Type} [LinearOrder ρ] [LinearOrder τ]

/-! ### Criteria -/

/-- On these rows the criteria decide as the ranks do. -/
def Decides (criteria : List (α → α → Ordering)) (rank : α → ρ) (rows : α → Prop) : Prop :=
  ∀ a b, rows a → rows b → (firstVerdict a b criteria).Compares (rank a) (rank b)

section Criteria

variable {criterion : α → α → Ordering} {criteria : List (α → α → Ordering)} {first : α → ρ}
  {rank : α → τ} {rows : α → Prop}

theorem decides_singleton
    (h : ∀ a b, rows a → rows b → (criterion a b).Compares (first a) (first b)) :
    Decides [criterion] first rows := by
  intro a b ha hb
  have hfirst := h a b ha hb
  unfold firstVerdict firstVerdict
  cases hverdict : criterion a b with
  | lt => rwa [hverdict] at hfirst
  | eq => rwa [hverdict] at hfirst
  | gt => rwa [hverdict] at hfirst

theorem Decides.cons
    (hrest : Decides criteria rank rows)
    (h : ∀ a b, rows a → rows b → (criterion a b).Compares (first a) (first b)) :
    Decides (criterion :: criteria) (fun r => toLex (first r, rank r)) rows := by
  intro a b ha hb
  have hfirst := h a b ha hb
  unfold firstVerdict
  cases hverdict : criterion a b with
  | lt =>
      rw [hverdict] at hfirst
      exact Prod.Lex.toLex_lt_toLex.mpr (.inl hfirst)
  | gt =>
      rw [hverdict] at hfirst
      exact Prod.Lex.toLex_lt_toLex.mpr (.inl hfirst)
  | eq =>
      rw [hverdict] at hfirst
      have hequal : first a = first b := hfirst
      have hlater := hrest a b ha hb
      dsimp only
      cases hverdict' : firstVerdict a b criteria with
      | lt =>
          rw [hverdict'] at hlater
          exact Prod.Lex.toLex_lt_toLex.mpr (.inr ⟨hequal, hlater⟩)
      | gt =>
          rw [hverdict'] at hlater
          exact Prod.Lex.toLex_lt_toLex.mpr (.inr ⟨hequal.symm, hlater⟩)
      | eq =>
          rw [hverdict'] at hlater
          exact congrArg toLex (Prod.ext hequal hlater)

end Criteria

theorem compares_ascending
    (f : α → Int)
    (a b : α) :
    (ascending f a b).Compares (f a) (f b) :=
  (compare_iff _ _).mp rfl

theorem compares_descending
    (f : α → Int)
    (a b : α) :
    (descending f a b).Compares (OrderDual.toDual (f a)) (OrderDual.toDual (f b)) :=
  toDual_compares_toDual.mpr ((compare_iff _ _).mp rfl)

theorem Ranked.compares_ascendingBy
    {le : κ → κ → Bool}
    {rank : κ → ρ}
    {keys : κ → Prop}
    (h : Ranked le rank keys)
    (f : α → κ)
    {a b : α}
    (ha : keys (f a))
    (hb : keys (f b)) :
    (ascendingBy le f a b).Compares (rank (f a)) (rank (f b)) := by
  unfold ascendingBy
  by_cases hlt : le (f b) (f a) = true
  · have hge := (h.le_iff _ _ hb ha).mp hlt
    by_cases hgt : le (f a) (f b) = true
    · simpa [hlt, hgt] using le_antisymm ((h.le_iff _ _ ha hb).mp hgt) hge
    · simpa [hlt, hgt] using not_le.mp (mt (h.le_iff _ _ ha hb).mpr hgt)
  · simpa [hlt] using not_le.mp (mt (h.le_iff _ _ hb ha).mpr hlt)

/-! ### Ranked rows -/

section Ranking

variable {criteria : List (α → α → Ordering)} {rank : α → ρ} {rows : List α}

theorem perm_rankBy
    (criteria : List (α → α → Ordering))
    (rows : List α) :
    (rankBy criteria rows).Perm rows :=
  List.mergeSort_perm _ _

/-- Where no two rows have the same rank, the ranking ascends strictly. -/
theorem pairwise_rankBy
    (h : Decides criteria rank (· ∈ rows))
    (hrank : (rows.map rank).Nodup) :
    (rankBy criteria rows).Pairwise fun a b => rank a < rank b := by
  have hranked :
      Ranked (fun a b => firstVerdict a b criteria != .gt) rank (· ∈ rows) := by
    refine ⟨fun a b ha hb => ?_, fun a b ha hb => List.inj_on_of_nodup_map hrank ha hb⟩
    rw [bne_iff_ne]
    exact (h a b ha hb).ne_gt
  have hsorted := hranked.pairwise_mergeSort id fun r (hr : r ∈ rows) => hr
  have hdistinct : (rankBy criteria rows).Pairwise fun a b => rank a ≠ rank b :=
    List.pairwise_map.mp (((perm_rankBy criteria rows).map rank).nodup_iff.mpr hrank)
  exact hsorted.imp₂ (fun a b hle hne => lt_of_le_of_ne hle hne) hdistinct

/-- Rows of which each has a second rank of its own are ranked by the first one, and where that is the same
by the second one. -/
theorem pairwise_rankBy_pair
    {first second : α → α → Ordering}
    {f : α → ρ}
    {g : α → τ}
    (hfirst : ∀ a b, a ∈ rows → b ∈ rows → (first a b).Compares (f a) (f b))
    (hsecond : ∀ a b, a ∈ rows → b ∈ rows → (second a b).Compares (g a) (g b))
    (hnodup : (rows.map g).Nodup) :
    (rankBy [first, second] rows).Pairwise fun a b => f a < f b ∨ f a = f b ∧ g a < g b := by
  have hranks : (rows.map fun r => toLex (f r, g r)).Nodup := by
    refine List.Nodup.of_map (fun pair => (ofLex pair).2) ?_
    rw [List.map_map]
    exact hnodup
  exact (pairwise_rankBy ((decides_singleton hsecond).cons hfirst) hranks).imp
    Prod.Lex.toLex_lt_toLex.mp

/-- A limit of 64 bits keeps the first rows, as no table has 2 to the power of 63 rows. -/
theorem limit_eq_take
    {topN : Nat}
    (htop : topN < 2 ^ 64)
    (hrows : rows.length < 2 ^ 63) :
    limit topN rows = rows.take topN := by
  unfold limit
  rw [Nat.mod_eq_of_lt (show topN < Decimal.word64Count from htop)]
  split
  · rfl
  · next hlarge =>
      unfold Decimal.int64Max at hlarge
      exact (List.take_of_length_le (by omega)).symm

end Ranking

/-! ### Distinct values -/

section Distinct

variable {le : κ → κ → Bool} {rank : κ → ρ} {keys : κ → Prop} {values : List κ}

theorem mem_distinct
    (h : Ranked le rank keys)
    (hvalues : ∀ v ∈ values, keys v)
    (v : κ) :
    v ∈ distinct le values ↔ v ∈ values := by
  have hmem : v ∈ distinct le values ↔ ∃ w ∈ values, id w = v := mem_keys_groups h hvalues v
  simpa only [id_eq, exists_eq_right] using hmem

theorem pairwise_distinct
    (h : Ranked le rank keys)
    (hvalues : ∀ v ∈ values, keys v) :
    (distinct le values).Pairwise fun v w => rank v < rank w :=
  List.pairwise_map.mpr (pairwise_groups h hvalues)

theorem nodup_distinct
    (h : Ranked le rank keys)
    (hvalues : ∀ v ∈ values, keys v) :
    (distinct le values).Nodup :=
  nodup_keys_groups h hvalues

theorem length_distinct
    [DecidableEq κ]
    (h : Ranked le rank keys)
    (hvalues : ∀ v ∈ values, keys v) :
    (distinct le values).length = values.toFinset.card := by
  have hsame : (distinct le values).toFinset = values.toFinset := by
    ext v
    rw [List.mem_toFinset, List.mem_toFinset, mem_distinct h hvalues]
  rw [← hsame, List.toFinset_card_of_nodup (nodup_distinct h hvalues)]

end Distinct

end Store
end AccessAudit
