import AccessAudit.Text.Blank
import Mathlib.Data.List.Basic

/-!
# Cutting texts

A text is cut at one or at all occurrences of a character, and no piece holds that character any more.
-/

namespace AccessAudit
namespace Text

theorem splitOnce_append
    {c : Char}
    {before : List Char}
    (h : c ∉ before)
    (after : List Char) :
    splitOnce c (before ++ c :: after) = some (before, after) := by
  induction before with
  | nil => exact if_pos rfl
  | cons d before ih =>
      obtain ⟨hne, hbefore⟩ := List.ne_and_not_mem_of_not_mem_cons h
      rw [List.cons_append, splitOnce, if_neg hne.symm, ih hbefore]
      rfl

theorem splitOnce_of_not_mem
    {c : Char}
    {s : List Char}
    (h : c ∉ s) :
    splitOnce c s = none := by
  induction s with
  | nil => rfl
  | cons d rest ih =>
      obtain ⟨hne, hrest⟩ := List.ne_and_not_mem_of_not_mem_cons h
      rw [splitOnce, if_neg hne.symm, ih hrest]
      rfl

theorem not_mem_of_mem_splitOn
    {c : Char}
    {s piece : List Char}
    (h : piece ∈ s.splitOn c) :
    c ∉ piece := by
  induction s generalizing piece with
  | nil =>
      rw [List.splitOn_nil, List.mem_singleton] at h
      rw [h]
      exact List.not_mem_nil
  | cons d s ih =>
      rw [List.splitOn_cons_eq_if_modifyHead] at h
      split at h
      · obtain rfl | h := List.mem_cons.mp h
        · exact List.not_mem_nil
        · exact ih h
      · next hd =>
          obtain ⟨first, more, hpieces⟩ := List.exists_cons_of_ne_nil (List.splitOn_ne_nil c s)
          rw [hpieces, List.modifyHead_cons] at h
          obtain rfl | h := List.mem_cons.mp h
          · have hfirst := ih (hpieces ▸ List.mem_cons_self ..)
            exact List.not_mem_cons_of_ne_of_not_mem (fun hsame => hd (by simp [hsame])) hfirst
          · exact ih (hpieces ▸ List.mem_cons_of_mem first h)

theorem mem_of_mem_splitOn
    {c d : Char}
    {s piece : List Char}
    (h : piece ∈ s.splitOn c)
    (hd : d ∈ piece) :
    d ∈ s := by
  induction s generalizing piece with
  | nil =>
      rw [List.splitOn_nil, List.mem_singleton] at h
      rwa [h] at hd
  | cons e s ih =>
      rw [List.splitOn_cons_eq_if_modifyHead] at h
      split at h
      · obtain rfl | h := List.mem_cons.mp h
        · cases hd
        · exact List.mem_cons_of_mem e (ih h hd)
      · obtain ⟨first, more, hpieces⟩ := List.exists_cons_of_ne_nil (List.splitOn_ne_nil c s)
        rw [hpieces, List.modifyHead_cons] at h
        obtain rfl | h := List.mem_cons.mp h
        · obtain rfl | hd := List.mem_cons.mp hd
          · exact List.mem_cons_self ..
          · exact List.mem_cons_of_mem e (ih (hpieces ▸ List.mem_cons_self ..) hd)
        · exact List.mem_cons_of_mem e (ih (hpieces ▸ List.mem_cons_of_mem first h) hd)

end Text
end AccessAudit
