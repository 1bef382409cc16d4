import Mathlib.Data.List.Forall2
import Mathlib.Data.List.Sort

/-!
# Computations and lists

A computation that succeeds has steps that succeed, and a list is worked through up to the first of its members
with a fault.  A list is sorted and then rid of its repetitions in several places; what is left ascends strictly
and has the same members.
-/

namespace AccessAudit

/-- A computation that succeeds has a first step that succeeds. -/
theorem exists_of_bind_eq_ok
    {ε α β : Type}
    {first : Except ε α}
    {next : α → Except ε β}
    {b : β}
    (h : (do let a ← first; next a) = .ok b) :
    ∃ a, first = .ok a ∧ next a = .ok b := by
  cases first with
  | error f => cases h
  | ok a => exact ⟨a, rfl, h⟩

theorem mapError_eq_ok_iff
    {ε δ α : Type}
    {relabel : ε → δ}
    {result : Except ε α}
    {a : α} :
    result.mapError relabel = .ok a ↔ result = .ok a := by
  cases result <;> simp [Except.mapError]

section Lists

variable {ε β γ : Type}

/-- A list is worked through without a fault if each of its members is. -/
theorem mapM_eq_ok_iff
    (g : β → Except ε γ)
    (xs : List β)
    (ys : List γ) :
    xs.mapM g = .ok ys ↔ List.Forall₂ (fun x y => g x = .ok y) xs ys := by
  induction xs generalizing ys with
  | nil => cases ys <;> simp [pure, Except.pure]
  | cons x rest ih =>
      rw [List.mapM_cons]
      cases hx : g x with
      | error e => cases ys <;> simp [bind, Except.bind, hx]
      | ok y =>
          cases hrest : rest.mapM g with
          | error e => cases ys <;> simp [bind, Except.bind, ← ih, hrest]
          | ok zs => cases ys <;> simp [bind, Except.bind, pure, Except.pure, ← ih, hrest, hx]

theorem exists_mapM_eq_ok
    {g : β → Except ε γ}
    {xs : List β}
    (h : ∀ x ∈ xs, ∃ y, g x = .ok y) :
    ∃ ys, xs.mapM g = .ok ys := by
  induction xs with
  | nil => exact ⟨[], rfl⟩
  | cons x rest ih =>
      obtain ⟨y, hy⟩ := h x List.mem_cons_self
      obtain ⟨ys, hys⟩ := ih fun x hx => h x (List.mem_cons_of_mem _ hx)
      rw [mapM_eq_ok_iff] at hys
      exact ⟨y :: ys, (mapM_eq_ok_iff _ _ _).mpr (.cons hy hys)⟩

theorem exists_of_mapM_eq_ok
    {g : β → Except ε γ}
    {xs : List β}
    {ys : List γ}
    (h : xs.mapM g = .ok ys) :
    ∀ x ∈ xs, ∃ y, g x = .ok y := by
  rw [mapM_eq_ok_iff] at h
  induction h with
  | nil => nofun
  | cons hy _ ih => exact List.forall_mem_cons.mpr ⟨⟨_, hy⟩, ih⟩

/-- Working through a list stops at its first member with a fault. -/
theorem mapM_eq_error_iff
    (g : β → Except ε γ)
    (xs : List β)
    (e : ε) :
    xs.mapM g = .error e ↔
      ∃ before x after,
        xs = before ++ x :: after ∧ (∀ y ∈ before, ∃ z, g y = .ok z) ∧ g x = .error e := by
  induction xs with
  | nil => simp [pure, Except.pure]
  | cons x rest ih =>
      rw [List.mapM_cons]
      cases hx : g x with
      | error e' =>
          simp only [bind, Except.bind, Except.error.injEq]
          constructor
          · rintro rfl
            exact ⟨[], x, rest, rfl, nofun, hx⟩
          · rintro ⟨before, y, after, hsplit, hbefore, hy⟩
            rcases List.cons_eq_append_iff.mp hsplit with ⟨rfl, hcons⟩ | ⟨before, rfl, -⟩
            · obtain ⟨rfl, -⟩ := List.cons.inj hcons
              exact Except.error.inj (hx.symm.trans hy)
            · obtain ⟨z, hz⟩ := hbefore x List.mem_cons_self
              rw [hx] at hz
              cases hz
      | ok z =>
          have hrest : (Except.ok z >>= fun b => do let bs ← rest.mapM g; pure (b :: bs)) = .error e ↔
              rest.mapM g = .error e := by
            cases rest.mapM g <;> simp [bind, Except.bind, pure, Except.pure]
          rw [hrest, ih]
          constructor
          · rintro ⟨before, y, after, rfl, hbefore, hy⟩
            exact ⟨x :: before, y, after, rfl, List.forall_mem_cons.mpr ⟨⟨z, hx⟩, hbefore⟩, hy⟩
          · rintro ⟨before, y, after, hsplit, hbefore, hy⟩
            rcases List.cons_eq_append_iff.mp hsplit with ⟨rfl, hcons⟩ | ⟨before, rfl, hafter⟩
            · obtain ⟨rfl, -⟩ := List.cons.inj hcons
              rw [hx] at hy
              cases hy
            · exact ⟨before, y, after, hafter, (List.forall_mem_cons.mp hbefore).2, hy⟩

/-- To check a list is to work through it and to forget the results. -/
theorem forM_eq_map_mapM
    (g : β → Except ε Unit)
    (xs : List β) :
    xs.forM g = (xs.mapM g).map fun _ => () := by
  induction xs with
  | nil => rfl
  | cons x rest ih =>
      change (g x >>= fun _ => rest.forM g) = _
      rw [List.mapM_cons, ih]
      cases g x with
      | error e => rfl
      | ok done => cases rest.mapM g <;> rfl

end Lists

/-! ### Lists without repetitions -/

section Distinct

variable {α : Type} [LinearOrder α]

/-- From an ascending list repetitions are removed by leaving out an entry that is also the next one. -/
theorem pairwise_foldr_distinct
    {l : List α}
    (h : l.Pairwise (· ≤ ·)) :
    let kept := l.foldr (fun x rest => if rest.head? = some x then rest else x :: rest) []
    kept.Pairwise (· < ·) ∧ ∀ x, x ∈ kept ↔ x ∈ l := by
  induction l with
  | nil => exact ⟨.nil, fun x => Iff.rfl⟩
  | cons x l ih =>
      obtain ⟨hfirst, hrest⟩ := List.pairwise_cons.mp h
      obtain ⟨hascending, hmem⟩ := ih hrest
      simp only [List.foldr_cons]
      generalize l.foldr (fun x rest => if rest.head? = some x then rest else x :: rest) [] = kept
        at hascending hmem
      by_cases hhead : kept.head? = some x
      · have hx : x ∈ l := (hmem x).mp (List.mem_of_head? hhead)
        rw [if_pos hhead]
        refine ⟨hascending, fun y => ?_⟩
        rw [hmem, List.mem_cons]
        refine ⟨Or.inr, ?_⟩
        rintro (rfl | hy)
        · exact hx
        · exact hy
      · rw [if_neg hhead]
        refine ⟨List.pairwise_cons.mpr ⟨fun y hy => ?_, hascending⟩, fun y => ?_⟩
        · -- only the first of the kept entries could be the new one
          refine lt_of_le_of_ne (hfirst y ((hmem y).mp hy)) ?_
          rintro rfl
          cases kept with
          | nil => cases hy
          | cons first kept =>
              have hne : first ≠ x := fun heq => hhead (congrArg some heq)
              have hlt : first < x :=
                (List.pairwise_cons.mp hascending).1 x ((List.mem_cons.mp hy).resolve_left hne.symm)
              exact absurd (hfirst first ((hmem first).mp List.mem_cons_self)) (not_le_of_gt hlt)
        · rw [List.mem_cons, List.mem_cons, hmem]

theorem pairwise_mergeSort
    (l : List α) :
    (l.mergeSort (· ≤ ·)).Pairwise (· ≤ ·) :=
  List.pairwise_mergeSort' (· ≤ ·) l

end Distinct

end AccessAudit
