import AccessAudit.Store.Disk
import Mathlib.Data.List.Basic

/-!
# Places on a disk

A change at one place of a disk leaves all others as they are, and no connection to a database makes or removes
a directory.  The system takes a path from directory to directory; the store goes by the pieces of the path.  As
long as a path is straight the two agree: it leads to the place that its pieces name, or to nowhere.
-/

namespace AccessAudit
namespace Store

/-! ### Names beside a name -/

namespace Disk

variable {d d' : Disk} {p q : Path} {n : Node}

/-! ### Changes at one place -/

@[simp] theorem find?_nil
    (d : Disk) :
    d.find? [] = some .directory :=
  if_pos rfl

theorem lookup_filter_ne
    (h : q ≠ p)
    (nodes : List (Path × Node)) :
    (nodes.filter fun entry => entry.1 ≠ p).lookup q = nodes.lookup q := by
  induction nodes with
  | nil => rfl
  | cons entry nodes ih =>
      obtain ⟨r, n⟩ := entry
      by_cases hr : r = p
      · subst hr
        rw [List.filter_cons_of_neg (by simp), ih, List.lookup_cons, beq_false_of_ne h]
      · rw [List.filter_cons_of_pos (by simpa using hr), List.lookup_cons, List.lookup_cons, ih]

theorem find?_put_self
    (h : p ≠ []) :
    (d.put p n).find? p = some n := by
  rw [find?, if_neg h]
  simp [put]

theorem find?_put_of_ne
    (h : q ≠ p) :
    (d.put p n).find? q = d.find? q := by
  unfold find?
  split
  · rfl
  · rw [put, List.lookup_cons, beq_false_of_ne h]
    exact lookup_filter_ne h d.nodes

theorem hasDirectory_eq_true_iff :
    d.hasDirectory p = true ↔ d.find? p = some .directory :=
  decide_eq_true_iff

theorem hasFile_of_hasDirectory
    (h : d.hasDirectory p = true) :
    d.hasFile p = false := by
  rw [hasFile, hasDirectory_eq_true_iff.mp h]
  rfl

theorem find?_removeFile_self
    (h : d.hasFile p = true) :
    (d.removeFile p).find? p = none := by
  have hne : p ≠ [] := by
    rintro rfl
    rw [hasFile_of_hasDirectory (hasDirectory_eq_true_iff.mpr (find?_nil d))] at h
    cases h
  rw [removeFile, if_pos h, find?, if_neg hne, List.lookup_eq_none_iff]
  intro entry hentry
  have hother : entry.1 ≠ p := of_decide_eq_true (List.mem_filter.mp hentry).2
  simpa using hother.symm

theorem find?_removeFile_of_ne
    (h : q ≠ p) :
    (d.removeFile p).find? q = d.find? q := by
  unfold removeFile
  split
  · unfold find?
    rw [lookup_filter_ne h]
  · rfl

/-- What happens to a place when files are removed: nothing, or the file there goes. -/
theorem find?_removeFile
    (d : Disk)
    (p q : Path) :
    (d.removeFile p).find? q = d.find? q ∨
      q = p ∧ d.hasFile q = true ∧ (d.removeFile p).find? q = none := by
  by_cases hq : q = p
  · subst hq
    cases hfile : d.hasFile q with
    | true => exact .inr ⟨rfl, rfl, find?_removeFile_self hfile⟩
    | false =>
        left
        rw [removeFile, hfile, if_neg Bool.false_ne_true]
  · exact .inl (find?_removeFile_of_ne hq)

theorem find?_foldl_removeFile
    (d : Disk)
    (ps : List Path)
    (q : Path) :
    (ps.foldl removeFile d).find? q = d.find? q ∨
      q ∈ ps ∧ d.hasFile q = true ∧ (ps.foldl removeFile d).find? q = none := by
  induction ps generalizing d with
  | nil => exact .inl rfl
  | cons p ps ih =>
      rw [List.foldl_cons]
      rcases d.find?_removeFile p q with hfirst | ⟨rfl, hfile, hfirst⟩
      · have hfile : (d.removeFile p).hasFile q = d.hasFile q := by rw [hasFile, hfirst, hasFile]
        rcases ih (d.removeFile p) with hrest | ⟨hmem, hrest⟩
        · exact .inl (hrest.trans hfirst)
        · rw [hfile] at hrest
          exact .inr ⟨List.mem_cons_of_mem _ hmem, hrest⟩
      · refine .inr ⟨List.mem_cons_self, hfile, ?_⟩
        rcases ih (d.removeFile q) with hrest | ⟨-, -, hrest⟩
        · exact hrest.trans hfirst
        · exact hrest

theorem find?_clearJournals
    (d : Disk)
    (p : Path)
    (writeAhead : Bool)
    (q : Path) :
    (d.clearJournals p writeAhead).find? q = d.find? q ∨
      q ∈ p.journals ∧ d.hasFile q = true ∧ (d.clearJournals p writeAhead).find? q = none :=
  (find?_foldl_removeFile d _ q).imp_right fun ⟨hmem, h⟩ => ⟨(List.mem_filter.mp hmem).1, h⟩

/-! ### Trees -/

/-- Whatever stands somewhere stands in a directory. -/
def IsTree (d : Disk) : Prop :=
  ∀ p n, d.find? p = some n → d.hasDirectory p.dropLast = true

theorem IsTree.find?_eq_none
    (hd : d.IsTree)
    (h : d.hasDirectory p.dropLast = false) :
    d.find? p = none := by
  refine Option.eq_none_iff_forall_ne_some.mpr fun n hn => ?_
  rw [hd p n hn] at h
  cases h

/-- A file is new or has changed at one place, and at others files may have gone. -/
structure ChangedAt (p : Path) (journals : List Path) (d d' : Disk) : Prop where
  hasFile : d'.hasFile p = true
  not_hasDirectory : d.hasDirectory p = false
  hasDirectory_above : d.hasDirectory p.dropLast = true
  elsewhere : ∀ q, q ≠ p →
    d'.find? q = d.find? q ∨ q ∈ journals ∧ d.hasFile q = true ∧ d'.find? q = none

namespace ChangedAt

variable {journals : List Path}

/-- No directory comes or goes. -/
theorem hasDirectory_eq
    (h : ChangedAt p journals d d')
    (q : Path) :
    d'.hasDirectory q = d.hasDirectory q := by
  by_cases hq : q = p
  · subst hq
    rw [h.not_hasDirectory, ← Bool.not_eq_true]
    intro hdirectory
    have hfile := h.hasFile
    rw [hasFile_of_hasDirectory hdirectory] at hfile
    cases hfile
  · rcases h.elsewhere q hq with hsame | ⟨-, hfile, hnone⟩
    · rw [hasDirectory, hsame, hasDirectory]
    · have hnot : d.hasDirectory q = false := by
        rw [← Bool.not_eq_true]
        intro hdirectory
        rw [hasFile_of_hasDirectory hdirectory] at hfile
        cases hfile
      rw [hnot, hasDirectory, hnone]
      rfl

theorem isTree
    (h : ChangedAt p journals d d')
    (hd : d.IsTree) :
    d'.IsTree := by
  intro q n hfind
  rw [h.hasDirectory_eq]
  by_cases hq : q = p
  · rw [hq]
    exact h.hasDirectory_above
  · rcases h.elsewhere q hq with hsame | ⟨-, -, hnone⟩
    · exact hd q n (hsame.symm.trans hfind)
    · rw [hnone] at hfind
      cases hfind

end ChangedAt

/-! ### Following a path -/

/-- A walk whose steps follow the pieces of a path ends at the place that these name. -/
theorem eq_foldl_follow
    {step : Path → String → Option Path}
    (hstep : ∀ {p piece q}, step p piece = some q → q = p.follow piece)
    {pieces : List String}
    {start : Path}
    (h : pieces.foldlM step start = some p) :
    p = pieces.foldl Path.follow start := by
  induction pieces generalizing start with
  | nil => exact (Option.some.inj h).symm
  | cons piece pieces ih =>
      rw [List.foldlM_cons] at h
      obtain ⟨next, hnext, hrest⟩ := Option.bind_eq_some_iff.mp h
      rw [List.foldl_cons, ← hstep hnext]
      exact ih hrest

theorem eq_ofText_of_place?
    {name : String}
    (h : d.place? name = some p) :
    p = Path.ofText name := by
  refine eq_foldl_follow (fun {p piece q} hstep => ?_) h
  split at hstep
  · exact (Option.some.inj hstep).symm
  · cases hstep

theorem eq_ofText_of_storePlace?
    {name : String}
    (h : d.storePlace? name = some p) :
    p = Path.ofText name := by
  refine eq_foldl_follow (fun {p piece q} hstep => ?_) h
  dsimp only at hstep
  split at hstep
  · cases hstep
  · exact (Option.some.inj hstep).symm

/-- Where the system goes the store goes too. -/
theorem storePlace?_of_place?
    {name : String}
    (h : d.place? name = some p) :
    d.storePlace? name = some p := by
  unfold place? at h
  unfold storePlace?
  generalize Path.pieces name = pieces at h
  generalize ([] : Path) = start at h
  induction pieces generalizing start with
  | nil => exact h
  | cons piece pieces ih =>
      rw [List.foldlM_cons] at h
      obtain ⟨next, hnext, hrest⟩ := Option.bind_eq_some_iff.mp h
      split at hnext
      · next hdirectory =>
          obtain rfl := Option.some.inj hnext
          rw [List.foldlM_cons]
          dsimp only
          rw [if_neg (by rw [hasFile_of_hasDirectory hdirectory]; simp)]
          exact ih _ hrest
      · cases hnext

theorem place?_congr
    (h : ∀ q, d'.hasDirectory q = d.hasDirectory q)
    (name : String) :
    d'.place? name = d.place? name := by
  unfold place?
  simp only [h]

/-- A text names a file by its path: it is no address, and none of the two names of databases without a file. -/
structure NamesFile (name : String) : Prop where
  ne_empty : name ≠ ""
  ne_memory : name ≠ ":memory:"
  not_address : ¬"file:".toList <+: name.toList

theorem NamesFile.location
    {name : String}
    (h : NamesFile name)
    (access : Access) :
    Location.ofText access name = .ok (.file name access) := by
  have hplain : "file:".toList.isPrefixOf? name.toList = none := by
    rw [← Option.not_isSome_iff_eq_none, List.isSome_isPrefixOf?_eq_isPrefixOf, List.isPrefixOf_iff_prefix]
    exact h.not_address
  rw [Location.ofText, hplain, Location.ofPath, if_neg h.ne_empty, if_neg h.ne_memory]
  rfl

/-- A database may be called by a name on a disk: the name is the path of a file and straight, that is the system
goes where its pieces lead, unless that is in no directory at all, and the store finds room for its own files. -/
structure Admits (d : Disk) (name : String) : Prop where
  namesFile : NamesFile name
  straight : d.hasDirectory (Path.ofText name).dropLast = true → d.place? name = some (Path.ofText name)
  room : ∀ q ∈ (Path.ofText name).journals, d.hasDirectory q = false

instance (d : Disk) (name : String) : Decidable (d.Admits name) :=
  decidable_of_iff
    ((name ≠ "" ∧ name ≠ ":memory:" ∧ ¬"file:".toList <+: name.toList) ∧
      (d.hasDirectory (Path.ofText name).dropLast = true → d.place? name = some (Path.ofText name)) ∧
      ∀ q ∈ (Path.ofText name).journals, d.hasDirectory q = false)
    ⟨fun ⟨⟨hempty, hmemory, haddress⟩, hstraight, hroom⟩ => ⟨⟨hempty, hmemory, haddress⟩, hstraight, hroom⟩,
      fun ⟨⟨hempty, hmemory, haddress⟩, hstraight, hroom⟩ => ⟨⟨hempty, hmemory, haddress⟩, hstraight, hroom⟩⟩

theorem Admits.congr
    {name : String}
    (h : d.Admits name)
    (hdirectories : ∀ q, d'.hasDirectory q = d.hasDirectory q) :
    d'.Admits name := by
  refine ⟨h.namesFile, ?_, ?_⟩
  · rw [hdirectories, place?_congr hdirectories]
    exact h.straight
  · intro q hq
    rw [hdirectories]
    exact h.room q hq

end Disk
end Store
end AccessAudit
