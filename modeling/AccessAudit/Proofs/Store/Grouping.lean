import AccessAudit.Store.Grouping
import Mathlib.Data.List.Forall2
import Mathlib.Data.List.Sort
import Mathlib.Data.List.SplitBy

/-!
# Groups do not depend on the order of the rows

Rows are gathered by an order of their keys.  Where that order is the order of ranks, and no two keys
that occur have the same rank, the groups are what one expects: one for each key that occurs, in
ascending order, and in each group the rows with its key.  So rows in another order make the same
groups, with their rows in another order.
-/

namespace AccessAudit
namespace Store

variable {α β κ ρ : Type} [LinearOrder ρ]

/-- On these keys an order is that of their ranks, and no two of them have the same rank. -/
structure Ranked (le : κ → κ → Bool) (rank : κ → ρ) (keys : κ → Prop) : Prop where
  le_iff : ∀ a b, keys a → keys b → (le a b = true ↔ rank a ≤ rank b)
  inj : ∀ a b, keys a → keys b → rank a = rank b → a = b

theorem ranks_trans
    (rank : α → ρ)
    (a b c : α)
    (hab : decide (rank a ≤ rank b) = true)
    (hbc : decide (rank b ≤ rank c) = true) :
    decide (rank a ≤ rank c) = true := by
  simp only [decide_eq_true_eq] at hab hbc ⊢
  exact hab.trans hbc

theorem ranks_total
    (rank : α → ρ)
    (a b : α) :
    (decide (rank a ≤ rank b) || decide (rank b ≤ rank a)) = true := by
  simp only [Bool.or_eq_true, decide_eq_true_eq]
  exact le_total _ _

namespace Ranked

variable {le : κ → κ → Bool} {rank : κ → ρ} {keys : κ → Prop}

/-- Sorting by such an order is sorting by the ranks. -/
theorem mergeSort_eq
    (h : Ranked le rank keys)
    (key : α → κ)
    {rows : List α}
    (hrows : ∀ r ∈ rows, keys (key r)) :
    rows.mergeSort (fun a b => le (key a) (key b)) =
      rows.mergeSort fun a b => decide (rank (key a) ≤ rank (key b)) := by
  have hmap := List.map_mergeSort (f := id) (l := rows)
    (r := fun a b => le (key a) (key b))
    (s := fun a b => decide (rank (key a) ≤ rank (key b)))
    (fun a ha b hb => by
      rw [Bool.eq_iff_iff, decide_eq_true_iff]
      exact h.le_iff _ _ (hrows a ha) (hrows b hb))
  simpa using hmap

theorem pairwise_mergeSort
    (h : Ranked le rank keys)
    (key : α → κ)
    {rows : List α}
    (hrows : ∀ r ∈ rows, keys (key r)) :
    (rows.mergeSort fun a b => le (key a) (key b)).Pairwise
      fun a b => rank (key a) ≤ rank (key b) := by
  rw [h.mergeSort_eq key hrows]
  simpa using List.pairwise_mergeSort (ranks_trans (rank ∘ key)) (ranks_total (rank ∘ key)) rows

/-- Rows that ascend keep their order, so rows with one key do. -/
theorem sublist_mergeSort
    (h : Ranked le rank keys)
    (key : α → κ)
    {rows : List α}
    (hrows : ∀ r ∈ rows, keys (key r))
    {part : List α}
    (hpart : part.Sublist rows)
    (hascends : part.Pairwise fun a b => rank (key a) ≤ rank (key b)) :
    part.Sublist (rows.mergeSort fun a b => le (key a) (key b)) := by
  rw [h.mergeSort_eq key hrows]
  exact List.sublist_mergeSort (ranks_trans (rank ∘ key)) (ranks_total (rank ∘ key)) (by simpa) hpart

/-- Values in another order are sorted into the same list. -/
theorem mergeSort_of_perm
    (h : Ranked le rank keys)
    {values values' : List κ}
    (hvalues : ∀ v ∈ values, keys v)
    (hperm : values.Perm values') :
    values.mergeSort le = values'.mergeSort le := by
  have hvalues' : ∀ v ∈ values', keys v := fun v hv => hvalues v (hperm.mem_iff.mpr hv)
  have hperms : (values.mergeSort le).Perm (values'.mergeSort le) :=
    (List.mergeSort_perm _ _).trans (hperm.trans (List.mergeSort_perm _ _).symm)
  have hsorted : (values.mergeSort le).Pairwise fun a b => rank a ≤ rank b :=
    h.pairwise_mergeSort id hvalues
  have hsorted' : (values'.mergeSort le).Pairwise fun a b => rank a ≤ rank b :=
    h.pairwise_mergeSort id hvalues'
  refine hperms.eq_of_pairwise ?_ hsorted hsorted'
  intro a b ha hb hab hba
  exact h.inj a b (hvalues a (List.mem_mergeSort.mp ha)) (hvalues' b (List.mem_mergeSort.mp hb))
    (le_antisymm hab hba)

end Ranked

/-! ### Runs of equal keys -/

section Runs

variable {le : κ → κ → Bool} {rank : κ → ρ} {keys : κ → Prop} {keyed : List (κ × α)}

/-- The rows of a sorted list split where the key grows. -/
def runs (le : κ → κ → Bool) (keyed : List (κ × α)) : List (List (κ × α)) :=
  keyed.splitBy fun a b => le b.1 a.1

theorem flatten_runs
    (le : κ → κ → Bool)
    (keyed : List (κ × α)) :
    (runs le keyed).flatten = keyed :=
  List.flatten_splitBy _ keyed

theorem mem_of_mem_runs
    {run : List (κ × α)}
    (hrun : run ∈ runs le keyed)
    {x : κ × α}
    (hx : x ∈ run) :
    x ∈ keyed := by
  rw [← flatten_runs le keyed]
  exact List.mem_flatten.mpr ⟨run, hrun, hx⟩

/-- The rows of a run have one key. -/
theorem key_eq_of_mem_run
    (h : Ranked le rank keys)
    (hkeys : ∀ x ∈ keyed, keys x.1)
    (hsorted : keyed.Pairwise fun a b => rank a.1 ≤ rank b.1)
    {run : List (κ × α)}
    (hrun : run ∈ runs le keyed)
    {x y : κ × α}
    (hx : x ∈ run)
    (hy : y ∈ run) :
    x.1 = y.1 := by
  have hin : ∀ z ∈ run, keys z.1 := fun z hz => hkeys z (mem_of_mem_runs hrun hz)
  have hup : run.Pairwise fun a b => rank a.1 ≤ rank b.1 := by
    rw [← flatten_runs le keyed] at hsorted
    exact (List.pairwise_flatten.mp hsorted).1 run hrun
  have hdown : run.Pairwise fun a b => rank b.1 ≤ rank a.1 := by
    have hchain : run.IsChain fun a b => le b.1 a.1 = true := List.isChain_of_mem_splitBy hrun
    have hrank : run.IsChain fun a b => rank b.1 ≤ rank a.1 := by
      refine hchain.imp_of_mem_imp ?_
      intro a b ha hb hab
      exact (h.le_iff _ _ (hin b hb) (hin a ha)).mp hab
    let below (a b : κ × α) : Prop := rank b.1 ≤ rank a.1
    have htrans : Trans below below below := ⟨fun hab hbc => hbc.trans hab⟩
    exact List.IsChain.pairwise (R := below) hrank
  have hall := List.Pairwise.forall_of_forall_of_flip
    (R := fun a b : κ × α => rank a.1 ≤ rank b.1) (fun z _ => le_refl _) hup hdown
  exact h.inj _ _ (hin x hx) (hin y hy) (le_antisymm (hall hx hy) (hall hy hx))

/-- From run to run the keys grow. -/
theorem pairwise_runs
    (h : Ranked le rank keys)
    (hkeys : ∀ x ∈ keyed, keys x.1)
    (hsorted : keyed.Pairwise fun a b => rank a.1 ≤ rank b.1) :
    (runs le keyed).Pairwise fun run next => ∀ x ∈ run, ∀ y ∈ next, rank x.1 < rank y.1 := by
  -- an empty run would let the order of its neighbours slip through it
  let grows (run next : List (κ × α)) : Prop :=
    next ≠ [] ∧ ∀ x ∈ run, ∀ y ∈ next, rank x.1 < rank y.1
  have hchain : (runs le keyed).IsChain grows := by
    refine (List.isChain_getLast_head_splitBy (fun a b : κ × α => le b.1 a.1) keyed).imp_of_mem_imp ?_
    rintro run next hrun hnext ⟨hne, hne', hlt⟩
    refine ⟨hne', ?_⟩
    intro x hx y hy
    have hlast := run.getLast_mem hne
    have hhead := next.head_mem hne'
    rw [key_eq_of_mem_run h hkeys hsorted hrun hx hlast,
      key_eq_of_mem_run h hkeys hsorted hnext hy hhead, ← not_le,
      ← h.le_iff _ _ (hkeys _ (mem_of_mem_runs hnext hhead)) (hkeys _ (mem_of_mem_runs hrun hlast)),
      hlt]
    exact Bool.false_ne_true
  have htrans : Trans grows grows grows := by
    refine ⟨?_⟩
    rintro first second third ⟨hne, hfirst⟩ ⟨hne', hsecond⟩
    obtain ⟨z, hz⟩ := List.exists_mem_of_ne_nil second hne
    exact ⟨hne', fun x hx y hy => (hfirst x hx z hz).trans (hsecond z hz y hy)⟩
  exact hchain.pairwise.imp And.right

end Runs

/-! ### Groups -/

section Groups

variable {le : κ → κ → Bool} {rank : κ → ρ} {keys : κ → Prop} {key : α → κ} {rows rows' : List α}

/-- The rows beside their keys, in the order of the keys. -/
def keyedRows (le : κ → κ → Bool) (key : α → κ) (rows : List α) : List (κ × α) :=
  (rows.map fun r => (key r, r)).mergeSort fun a b => le a.1 b.1

/-- A run without the keys, under that of its first row. -/
def named : List (κ × α) → Option (κ × List α)
  | [] => none
  | (k, r) :: rest => some (k, r :: rest.map (·.2))

theorem groups_eq_runs :
    groups le key rows = (runs le (keyedRows le key rows)).filterMap named := by
  unfold groups
  refine congrArg (List.filterMap · (runs le (keyedRows le key rows))) ?_
  funext run
  cases run <;> rfl

theorem named_eq_some
    {run : List (κ × α)}
    {group : κ × List α}
    (h : named run = some group) :
    (∃ r, (group.1, r) ∈ run) ∧ group.2 = run.map (·.2) := by
  cases run with
  | nil => cases h
  | cons first rest =>
      cases h
      exact ⟨⟨first.2, List.mem_cons_self⟩, rfl⟩

theorem mem_keyedRows
    {x : κ × α} :
    x ∈ keyedRows le key rows ↔ x.2 ∈ rows ∧ x.1 = key x.2 := by
  simp only [keyedRows, List.mem_mergeSort, List.mem_map]
  constructor
  · rintro ⟨r, hr, rfl⟩
    exact ⟨hr, rfl⟩
  · rintro ⟨hmem, hkey⟩
    exact ⟨x.2, hmem, Prod.ext hkey.symm rfl⟩

theorem keys_keyedRows
    (hrows : ∀ r ∈ rows, keys (key r)) :
    ∀ x ∈ keyedRows le key rows, keys x.1 := by
  intro x hx
  obtain ⟨hmem, hkey⟩ := mem_keyedRows.mp hx
  rw [hkey]
  exact hrows _ hmem

theorem pairwise_keyedRows
    (h : Ranked le rank keys)
    (hrows : ∀ r ∈ rows, keys (key r)) :
    (keyedRows le key rows).Pairwise fun a b => rank a.1 ≤ rank b.1 := by
  refine h.pairwise_mergeSort Prod.fst ?_
  intro x hx
  obtain ⟨r, hr, rfl⟩ := List.mem_map.mp hx
  exact hrows r hr

/-- The rows of a group are rows with its key. -/
theorem key_of_mem_group
    (h : Ranked le rank keys)
    (hrows : ∀ r ∈ rows, keys (key r))
    {group : κ × List α}
    (hgroup : group ∈ groups le key rows) :
    ∀ r ∈ group.2, r ∈ rows ∧ key r = group.1 := by
  rw [groups_eq_runs] at hgroup
  obtain ⟨run, hrun, hnamed⟩ := List.mem_filterMap.mp hgroup
  obtain ⟨⟨first, hfirst⟩, hmembers⟩ := named_eq_some hnamed
  intro r hr
  rw [hmembers] at hr
  obtain ⟨x, hx, rfl⟩ := List.mem_map.mp hr
  obtain ⟨hmem, hkey⟩ := mem_keyedRows.mp (mem_of_mem_runs hrun hx)
  refine ⟨hmem, ?_⟩
  rw [← hkey]
  exact key_eq_of_mem_run h (keys_keyedRows hrows) (pairwise_keyedRows h hrows) hrun hx hfirst

/-- Every group has rows. -/
theorem ne_nil_of_mem_groups
    {group : κ × List α}
    (hgroup : group ∈ groups le key rows) :
    group.2 ≠ [] := by
  rw [groups_eq_runs] at hgroup
  obtain ⟨run, -, hnamed⟩ := List.mem_filterMap.mp hgroup
  cases run with
  | nil => cases hnamed
  | cons first rest =>
      cases hnamed
      exact List.cons_ne_nil _ _

/-- The keys of the groups ascend. -/
theorem pairwise_groups
    (h : Ranked le rank keys)
    (hrows : ∀ r ∈ rows, keys (key r)) :
    (groups le key rows).Pairwise fun group next => rank group.1 < rank next.1 := by
  rw [groups_eq_runs]
  refine (pairwise_runs h (keys_keyedRows hrows) (pairwise_keyedRows h hrows)).filterMap named ?_
  intro run next hgrows group hgroup group' hgroup'
  obtain ⟨⟨first, hfirst⟩, -⟩ := named_eq_some hgroup
  obtain ⟨⟨first', hfirst'⟩, -⟩ := named_eq_some hgroup'
  exact hgrows _ hfirst _ hfirst'

/-- No two groups have the same key. -/
theorem nodup_keys_groups
    (h : Ranked le rank keys)
    (hrows : ∀ r ∈ rows, keys (key r)) :
    ((groups le key rows).map (·.1)).Nodup := by
  refine List.pairwise_map.mpr ((pairwise_groups h hrows).imp ?_)
  intro group next hlt
  exact ne_of_apply_ne rank hlt.ne

/-- Named by their keys, runs of rows hold the rows they held before; only empty ones are left out. -/
theorem flatMap_filterMap_named
    (runs : List (List (κ × α))) :
    (runs.filterMap named).flatMap (·.2) = runs.flatten.map (·.2) := by
  induction runs with
  | nil => rfl
  | cons run rest ih =>
      cases run with
      | nil => rw [List.filterMap_cons_none rfl, ih, List.flatten_cons, List.nil_append]
      | cons first others => simp [named, ih]

theorem flatMap_groups
    (le : κ → κ → Bool)
    (key : α → κ)
    (rows : List α) :
    (groups le key rows).flatMap (·.2) = (keyedRows le key rows).map (·.2) := by
  rw [groups_eq_runs, flatMap_filterMap_named, flatten_runs]

/-- Grouping loses no row and adds none. -/
theorem perm_flatMap_groups
    (le : κ → κ → Bool)
    (key : α → κ)
    (rows : List α) :
    ((groups le key rows).flatMap (·.2)).Perm rows := by
  rw [flatMap_groups]
  refine ((List.mergeSort_perm _ _).map _).trans ?_
  rw [List.map_map, List.map_id'']
  exact fun _ => rfl

theorem mem_of_mem_groups
    {group : κ × List α}
    (hgroup : group ∈ groups le key rows)
    {r : α}
    (hr : r ∈ group.2) :
    r ∈ rows :=
  (perm_flatMap_groups le key rows).mem_iff.mp (List.mem_flatMap.mpr ⟨group, hgroup, hr⟩)

/-- A key has a group if and only if a row has it. -/
theorem mem_keys_groups
    (h : Ranked le rank keys)
    (hrows : ∀ r ∈ rows, keys (key r))
    (k : κ) :
    k ∈ (groups le key rows).map (·.1) ↔ ∃ r ∈ rows, key r = k := by
  constructor
  · intro hk
    obtain ⟨group, hgroup, rfl⟩ := List.mem_map.mp hk
    obtain ⟨r, hr⟩ := List.exists_mem_of_ne_nil _ (ne_nil_of_mem_groups hgroup)
    exact ⟨r, key_of_mem_group h hrows hgroup r hr⟩
  · rintro ⟨r, hr, rfl⟩
    have hmem := (perm_flatMap_groups le key rows).mem_iff.mpr hr
    obtain ⟨group, hgroup, hr⟩ := List.mem_flatMap.mp hmem
    exact List.mem_map.mpr ⟨group, hgroup, (key_of_mem_group h hrows hgroup r hr).2.symm⟩

/-- Of gathered rows those with one key are the rows of one group, if no two groups have that key. -/
theorem filter_flatMap_eq
    [DecidableEq κ]
    {gathered : List (κ × List α)}
    (hkeys : gathered.Pairwise fun group next => group.1 ≠ next.1)
    (hrows : ∀ group ∈ gathered, ∀ r ∈ group.2, key r = group.1)
    {group : κ × List α}
    (hgroup : group ∈ gathered) :
    (gathered.flatMap (·.2)).filter (fun r => key r = group.1) = group.2 := by
  have hall : ∀ other ∈ gathered, other.1 = group.1 →
      other.2.filter (fun r => key r = group.1) = other.2 := by
    intro other hother heq
    refine List.filter_eq_self.mpr ?_
    intro r hr
    rw [hrows other hother r hr, heq, decide_eq_true_iff]
  have hnone : ∀ other ∈ gathered, other.1 ≠ group.1 →
      other.2.filter (fun r => key r = group.1) = [] := by
    intro other hother hne
    refine List.filter_eq_nil_iff.mpr ?_
    intro r hr
    rw [hrows other hother r hr, decide_eq_true_iff]
    exact hne
  obtain ⟨before, after, rfl⟩ := List.append_of_mem hgroup
  obtain ⟨-, hafter, hbefore⟩ := List.pairwise_append.mp hkeys
  have hempty : ∀ others : List (κ × List α),
      (∀ other ∈ others, other ∈ before ++ group :: after ∧ other.1 ≠ group.1) →
      (others.flatMap (·.2)).filter (fun r => key r = group.1) = [] := by
    intro others hothers
    rw [List.filter_flatMap, List.flatMap_eq_nil_iff]
    intro other hother
    exact hnone other (hothers other hother).1 (hothers other hother).2
  rw [List.flatMap_append, List.flatMap_cons, List.filter_append, List.filter_append,
    hall group hgroup rfl, hempty before, hempty after, List.nil_append, List.append_nil]
  · intro other hother
    exact ⟨by simp [hother], (List.rel_of_pairwise_cons hafter hother).symm⟩
  · intro other hother
    exact ⟨by simp [hother], hbefore other hother group List.mem_cons_self⟩

/-- A group has all rows with its key. -/
theorem group_perm_filter
    [DecidableEq κ]
    (h : Ranked le rank keys)
    (hrows : ∀ r ∈ rows, keys (key r))
    {group : κ × List α}
    (hgroup : group ∈ groups le key rows) :
    group.2.Perm (rows.filter fun r => key r = group.1) := by
  have hkeys : (groups le key rows).Pairwise fun group next => group.1 ≠ next.1 :=
    List.pairwise_map.mp (nodup_keys_groups h hrows)
  have hmembers : ∀ other ∈ groups le key rows, ∀ r ∈ other.2, key r = other.1 :=
    fun other hother r hr => (key_of_mem_group h hrows hother r hr).2
  -- the rows of all groups are the rows, so those with the key can be picked on either side
  have hfilter := (perm_flatMap_groups le key rows).filter fun r => decide (key r = group.1)
  rwa [filter_flatMap_eq hkeys hmembers hgroup] at hfilter

/-- The rows of a group keep the order in which they were inserted. -/
theorem group_eq_filter
    [DecidableEq κ]
    (h : Ranked le rank keys)
    (hrows : ∀ r ∈ rows, keys (key r))
    {group : κ × List α}
    (hgroup : group ∈ groups le key rows) :
    group.2 = rows.filter fun r => key r = group.1 := by
  have hkeys : (groups le key rows).Pairwise fun group next => group.1 ≠ next.1 :=
    List.pairwise_map.mp (nodup_keys_groups h hrows)
  have hmembers : ∀ other ∈ groups le key rows, ∀ r ∈ other.2, key r = other.1 :=
    fun other hother r hr => (key_of_mem_group h hrows hother r hr).2
  let part := rows.filter fun r => key r = group.1
  have hsame : ∀ r ∈ part, key r = group.1 := fun r hr => of_decide_eq_true (List.mem_filter.mp hr).2
  have hkeyed : (part.map fun r => (key r, r)).Sublist (keyedRows le key rows) := by
    refine h.sublist_mergeSort Prod.fst ?_ (List.filter_sublist.map _) (List.pairwise_map.mpr ?_)
    · intro x hx
      obtain ⟨r, hr, rfl⟩ := List.mem_map.mp hx
      exact hrows r hr
    · refine List.pairwise_of_forall_mem_list fun a ha b hb => ?_
      rw [hsame a ha, hsame b hb]
  have hpart : part.Sublist group.2 := by
    have hfilter := (hkeyed.map (·.2)).filter fun r => decide (key r = group.1)
    rw [← flatMap_groups, filter_flatMap_eq hkeys hmembers hgroup, List.map_map] at hfilter
    simpa [part, Function.comp_def] using hfilter
  exact (hpart.eq_of_length (group_perm_filter h hrows hgroup).length_eq.symm).symm

/-! ### Rows in another order -/

/-- A group of rows, and the group with the same key of the rows in another order. -/
structure Regrouped (key : α → κ) (rows : List α) (group group' : κ × List α) : Prop where
  key_eq : group.1 = group'.1
  perm : group.2.Perm group'.2
  members : ∀ r ∈ group.2, r ∈ rows ∧ key r = group.1

theorem keys_groups_of_perm
    (h : Ranked le rank keys)
    (hrows : ∀ r ∈ rows, keys (key r))
    (hperm : rows.Perm rows') :
    (groups le key rows).map (·.1) = (groups le key rows').map (·.1) := by
  have hrows' : ∀ r ∈ rows', keys (key r) := fun r hr => hrows r (hperm.mem_iff.mpr hr)
  have hperms : ((groups le key rows).map (·.1)).Perm ((groups le key rows').map (·.1)) := by
    refine (List.perm_ext_iff_of_nodup (nodup_keys_groups h hrows) (nodup_keys_groups h hrows')).mpr ?_
    intro k
    rw [mem_keys_groups h hrows, mem_keys_groups h hrows']
    simp only [hperm.mem_iff]
  have hascends : ((groups le key rows).map (·.1)).Pairwise fun k k' => rank k < rank k' :=
    List.pairwise_map.mpr (pairwise_groups h hrows)
  have hascends' : ((groups le key rows').map (·.1)).Pairwise fun k k' => rank k < rank k' :=
    List.pairwise_map.mpr (pairwise_groups h hrows')
  exact hperms.eq_of_pairwise (fun k k' _ _ hlt hgt => absurd hlt (lt_asymm hgt)) hascends hascends'

/-- Rows in another order make the same groups, up to the order of the rows in them. -/
theorem forall₂_groups
    (h : Ranked le rank keys)
    (hrows : ∀ r ∈ rows, keys (key r))
    (hperm : rows.Perm rows') :
    List.Forall₂ (Regrouped key rows) (groups le key rows) (groups le key rows') := by
  classical
  have hrows' : ∀ r ∈ rows', keys (key r) := fun r hr => hrows r (hperm.mem_iff.mpr hr)
  have hkeys := keys_groups_of_perm h hrows hperm
  refine List.forall₂_iff_get.mpr ⟨by simpa using congrArg List.length hkeys, ?_⟩
  intro i hi hi'
  have hgroup := List.get_mem (groups le key rows) ⟨i, hi⟩
  have hgroup' := List.get_mem (groups le key rows') ⟨i, hi'⟩
  have hkey : ((groups le key rows).get ⟨i, hi⟩).1 = ((groups le key rows').get ⟨i, hi'⟩).1 := by
    have hget := congrArg (·[i]?) hkeys
    simpa [List.getElem?_eq_getElem hi, List.getElem?_eq_getElem hi'] using hget
  refine ⟨hkey, ?_, key_of_mem_group h hrows hgroup⟩
  have hmembers := group_perm_filter h hrows hgroup
  have hmembers' := group_perm_filter h hrows' hgroup'
  rw [← hkey] at hmembers'
  exact hmembers.trans ((hperm.filter _).trans hmembers'.symm)

/-- A column has the same values in whatever order its rows stand. -/
theorem distinct_of_perm
    {values values' : List κ}
    (h : Ranked le rank keys)
    (hvalues : ∀ v ∈ values, keys v)
    (hperm : values.Perm values') :
    distinct le values = distinct le values' :=
  keys_groups_of_perm h hvalues hperm

theorem map_eq_of_regrouped
    {gathered gathered' : List (κ × List α)}
    (h : List.Forall₂ (Regrouped key rows) gathered gathered')
    {f : κ × List α → β}
    (hf : ∀ group group', Regrouped key rows group group' → f group = f group') :
    gathered.map f = gathered'.map f := by
  induction h with
  | nil => rfl
  | cons hfirst hrest ih => rw [List.map_cons, List.map_cons, hf _ _ hfirst, ih]

/-- What is made of every group is the same, if the order of its rows does not matter for it. -/
theorem map_groups_of_perm
    (h : Ranked le rank keys)
    (hrows : ∀ r ∈ rows, keys (key r))
    (hperm : rows.Perm rows')
    {f : κ × List α → β}
    (hf : ∀ group group', Regrouped key rows group group' → f group = f group') :
    (groups le key rows).map f = (groups le key rows').map f :=
  map_eq_of_regrouped (forall₂_groups h hrows hperm) hf

end Groups
end Store
end AccessAudit
