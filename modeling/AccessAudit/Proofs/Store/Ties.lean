import AccessAudit.Proofs.Store.KeyOrder
import AccessAudit.Proofs.Store.Ranking

/-!
# Groups of keys with one rank

Keys may have the same rank without being the same.  Their order does not tell them apart, so their rows are
gathered in one group, which goes by one of them.  Such groups are those of the ranks, which are ordered by
themselves: there is one for each rank that occurs, and it has all rows with keys of that rank.
-/

namespace AccessAudit
namespace Store

variable {α β κ ρ : Type} [LinearOrder ρ]

/-- On these keys an order is that of their ranks. -/
def OrderedBy (le : κ → κ → Bool) (rank : κ → ρ) (keys : κ → Prop) : Prop :=
  ∀ a b, keys a → keys b → (le a b = true ↔ rank a ≤ rank b)

theorem Ranked.orderedBy
    {le : κ → κ → Bool}
    {rank : κ → ρ}
    {keys : κ → Prop}
    (h : Ranked le rank keys) :
    OrderedBy le rank keys :=
  h.le_iff

/-- The order of ranks. -/
def rankLe (a b : ρ) : Bool :=
  decide (a ≤ b)

theorem ranked_rankLe : Ranked rankLe (id : ρ → ρ) (fun _ => True) where
  le_iff _ _ _ _ := decide_eq_true_iff
  inj _ _ _ _ h := h

/-! ### Splitting -/

section Splitting

variable {r : α → α → Bool} {s : β → β → Bool} {f : α → β}

theorem splitByLoop_map
    {rest : List α}
    {a : α}
    (h : ∀ x ∈ a :: rest, ∀ y ∈ a :: rest, r x y = s (f x) (f y))
    (run : List α)
    (done : List (List α)) :
    List.splitBy.loop s (rest.map f) (f a) (run.map f) (done.map (List.map f)) =
      (List.splitBy.loop r rest a run done).map (List.map f) := by
  induction rest generalizing a run done with
  | nil => simp [List.splitBy.loop]
  | cons b rest ih =>
      have hsame := h a List.mem_cons_self b (by simp)
      have hrest : ∀ x ∈ b :: rest, ∀ y ∈ b :: rest, r x y = s (f x) (f y) :=
        fun x hx y hy => h x (List.mem_cons_of_mem _ hx) y (List.mem_cons_of_mem _ hy)
      unfold List.splitBy.loop
      rw [List.map_cons]
      dsimp only
      rw [← hsame]
      cases r a b with
      | true => exact ih hrest (a :: run) done
      | false => simpa using ih hrest [] ((a :: run).reverse :: done)

/-- Where two tests agree, a list is split at the same places. -/
theorem splitBy_map
    {rows : List α}
    (h : ∀ x ∈ rows, ∀ y ∈ rows, r x y = s (f x) (f y)) :
    (rows.map f).splitBy s = (rows.splitBy r).map (List.map f) := by
  cases rows with
  | nil => rfl
  | cons a rest => exact splitByLoop_map h [] []

end Splitting

/-! ### Groups -/

section Groups

variable {le : κ → κ → Bool} {rank : κ → ρ} {keys : κ → Prop} {key : α → κ} {rows : List α}

/-- A group goes by the key of one of its rows. -/
theorem exists_key_of_mem_groups
    {group : κ × List α}
    (hgroup : group ∈ groups le key rows) :
    ∃ r ∈ group.2, key r = group.1 := by
  rw [groups_eq_runs] at hgroup
  obtain ⟨run, hrun, hnamed⟩ := List.mem_filterMap.mp hgroup
  obtain ⟨⟨r, hr⟩, hmembers⟩ := named_eq_some hnamed
  refine ⟨r, ?_, (mem_keyedRows.mp (mem_of_mem_runs hrun hr)).2.symm⟩
  rw [hmembers]
  exact List.mem_map_of_mem (f := Prod.snd) hr

/-- Groups of keys are those of their ranks. -/
theorem map_rank_groups
    (h : OrderedBy le rank keys)
    (hkeys : ∀ r ∈ rows, keys (key r)) :
    (groups le key rows).map (fun group => (rank group.1, group.2)) =
      groups rankLe (fun r => rank (key r)) rows := by
  have hle (a b : κ) (ha : keys a) (hb : keys b) : le a b = rankLe (rank a) (rank b) := by
    rw [Bool.eq_iff_iff, h a b ha hb, rankLe, decide_eq_true_iff]
  have hkeyed : (keyedRows le key rows).map (fun x => (rank x.1, x.2)) =
      keyedRows rankLe (fun r => rank (key r)) rows := by
    unfold keyedRows
    rw [List.map_mergeSort (s := fun a b => rankLe a.1 b.1), List.map_map]
    · rfl
    · intro x hx y hy
      obtain ⟨r, hr, rfl⟩ := List.mem_map.mp hx
      obtain ⟨r', hr', rfl⟩ := List.mem_map.mp hy
      exact hle _ _ (hkeys r hr) (hkeys r' hr')
  have hruns : runs rankLe (keyedRows rankLe (fun r => rank (key r)) rows) =
      (runs le (keyedRows le key rows)).map (List.map fun x => (rank x.1, x.2)) := by
    rw [← hkeyed]
    refine splitBy_map fun x hx y hy => ?_
    exact hle _ _ (keys_keyedRows hkeys y hy) (keys_keyedRows hkeys x hx)
  rw [groups_eq_runs, groups_eq_runs, hruns, List.map_filterMap, List.filterMap_map]
  refine List.filterMap_congr fun run _ => ?_
  cases run with
  | nil => rfl
  | cons first rest => simp [named]

/-- A group has all rows with keys of its rank. -/
theorem group_perm_filter_rank
    (h : OrderedBy le rank keys)
    (hkeys : ∀ r ∈ rows, keys (key r))
    {group : κ × List α}
    (hgroup : group ∈ groups le key rows) :
    group.2.Perm (rows.filter fun r => rank (key r) = rank group.1) := by
  have hranks : (rank group.1, group.2) ∈ groups rankLe (fun r => rank (key r)) rows := by
    rw [← map_rank_groups h hkeys]
    exact List.mem_map_of_mem hgroup
  exact group_perm_filter ranked_rankLe (fun _ _ => trivial) hranks

/-- The ranks of the groups ascend. -/
theorem pairwise_rank_groups
    (h : OrderedBy le rank keys)
    (hkeys : ∀ r ∈ rows, keys (key r)) :
    (groups le key rows).Pairwise fun group next => rank group.1 < rank next.1 := by
  have hranks : (groups rankLe (fun r => rank (key r)) rows).Pairwise fun group next => group.1 < next.1 :=
    pairwise_groups ranked_rankLe fun _ _ => trivial
  rw [← map_rank_groups h hkeys, List.pairwise_map] at hranks
  exact hranks

/-- Every row is in the group of its rank. -/
theorem exists_group_of_rank
    (h : OrderedBy le rank keys)
    (hkeys : ∀ r ∈ rows, keys (key r))
    {r : α}
    (hr : r ∈ rows) :
    ∃ group ∈ groups le key rows, rank group.1 = rank (key r) := by
  have hmem := (perm_flatMap_groups le key rows).mem_iff.mpr hr
  obtain ⟨group, hgroup, hmember⟩ := List.mem_flatMap.mp hmem
  have hrank := (group_perm_filter_rank h hkeys hgroup).mem_iff.mp hmember
  exact ⟨group, hgroup, (of_decide_eq_true (List.mem_filter.mp hrank).2).symm⟩

/-- Of the values of a column one of each rank is listed, in the order of the ranks. -/
theorem distinct_of_ranks
    {values : List κ}
    (h : OrderedBy le rank keys)
    (hvalues : ∀ v ∈ values, keys v) :
    (∀ v ∈ distinct le values, v ∈ values) ∧
    (∀ v ∈ values, ∃ w ∈ distinct le values, rank w = rank v) ∧
    (distinct le values).Pairwise fun v w => rank v < rank w := by
  refine ⟨fun v hv => ?_, fun v hv => ?_, List.pairwise_map.mpr (pairwise_rank_groups h hvalues)⟩
  · obtain ⟨group, hgroup, rfl⟩ := List.mem_map.mp hv
    obtain ⟨r, hr, hkey⟩ := exists_key_of_mem_groups hgroup
    have hmem := (group_perm_filter_rank h hvalues hgroup).mem_iff.mp hr
    exact hkey ▸ List.mem_of_mem_filter hmem
  · obtain ⟨group, hgroup, hrank⟩ := exists_group_of_rank h hvalues hv
    exact ⟨group.1, List.mem_map_of_mem hgroup, hrank⟩

end Groups

/-! ### User ids -/

theorem orderedBy_kept : OrderedBy Uid.le Uid.rank Uid.Kept := by
  intro a b ha hb
  refine Uid.le_iff_rank_le_of_ne_nan fun x y hx hy => ?_
  subst hx hy
  exact ⟨ha.1, hb.1⟩

/-- A user id with the value of a whole number has its rank. -/
theorem Uid.isInteger_iff
    {n : Int}
    {uid : Uid} :
    uid.isInteger n = true ↔ uid.rank = (Uid.integer n).rank := by
  have hle : uid.le (.integer n) = true ↔ uid.rank ≤ (Uid.integer n).rank :=
    Uid.le_iff_rank_le_of_ne_nan fun _ _ _ h => nomatch h
  have hge : (Uid.integer n).le uid = true ↔ (Uid.integer n).rank ≤ uid.rank :=
    Uid.le_iff_rank_le_of_ne_nan fun _ _ h => nomatch h
  rw [Uid.isInteger, Bool.and_eq_true, hle, hge, le_antisymm_iff]

theorem Uid.isInteger_integer_iff
    {m n : Int} :
    (Uid.integer m).isInteger n = true ↔ m = n := by
  rw [Uid.isInteger_iff]
  simp [Uid.rank]

end Store
end AccessAudit
