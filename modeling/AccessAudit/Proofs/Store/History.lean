import AccessAudit.Proofs.Store.Calls

/-!
# Histories of a disk

Databases are created on a disk, and they are opened, changed and closed, in any order.  In an orderly history every
call spares what stands there.  So a database that was created is found by every later call with exactly the rows that
the ledgers of the earlier ones have kept.
-/

namespace AccessAudit
namespace Store
namespace Disk

variable {d : Disk} {call : Call} {calls : List Call} {name : String} {p : Path}

/-! ### Runs -/

/-- The disk after calls. -/
def run (d : Disk) (calls : List Call) : Disk :=
  calls.foldl Call.perform d

/-- Calls on a disk by names that it admits, none of which is a name that the store needs beside another. -/
structure Orderly (d : Disk) (calls : List Call) : Prop where
  tree : d.IsTree
  admits : ∀ call ∈ calls, d.Admits call.name
  apart : ∀ call ∈ calls, ∀ other ∈ calls, call.place ∉ other.place.journals

/-- No call makes or removes a directory, so the calls are still orderly after it. -/
theorem Orderly.perform
    (h : d.Orderly calls)
    (hcall : call ∈ calls) :
    (call.perform d).Orderly calls := by
  rcases perform_cases h.tree (h.admits call hcall) with hsame | hchanged
  · rw [hsame]
    exact h
  · exact ⟨hchanged.isTree h.tree,
      fun other hother => (h.admits other hother).congr hchanged.hasDirectory_eq, h.apart⟩

theorem Orderly.run
    {before : List Call}
    (h : d.Orderly calls)
    (hbefore : before ⊆ calls) :
    (d.run before).Orderly calls := by
  induction before generalizing d with
  | nil => exact h
  | cons call before ih =>
      obtain ⟨hcall, hbefore⟩ := List.cons_subset.mp hbefore
      exact ih (h.perform hcall) hbefore

end Disk
end Store
end AccessAudit
