import AccessAudit.Proofs.Store.Ledger
import AccessAudit.Proofs.Store.Opening

/-!
# Calls on a disk

A database is created, or it is opened, changed and closed.  A call spares what stands on the disk: it does to its
own place what it should and leaves all others alone.  Creating refuses what stands there, opening neither makes a
file nor changes a table, and the rows that are found after the call are those that its ledger has kept.
-/

namespace AccessAudit
namespace Store

/-! ### Calls -/

/-- A call on a disk. -/
inductive Call
  /-- Creates a database. -/
  | create (name : String) (now : Int)
  /-- Opens a database, does something on that connection, and closes it. -/
  | visit (name : String) (localNetworks : List Block) (now : Int) (deeds : List Deed)

namespace Call

/-- The name by which a database is called. -/
def name : Call → String
  | .create name _ => name
  | .visit name _ _ _ => name

/-- The place of the database. -/
def place (call : Call) : Path :=
  Path.ofText call.name

/-- The disk after a call. -/
def perform (d : Disk) : Call → Disk
  | .create name now =>
      match d.initDatabase name now with
      | .ok d' => d'
      | .error _ => d
  | .visit name localNetworks now deeds =>
      match d.openSession name localNetworks now with
      | .ok (c, d') => d'.close { c with session := deeds.foldl Deed.perform c.session }
      | .error _ => d

/-- A call fails on a disk. -/
def Fails (d : Disk) : Call → Prop
  | .create name now => ∃ f, d.initDatabase name now = .error f
  | .visit name localNetworks now _ => ∃ f, d.openSession name localNetworks now = .error f

/-- The rows of a database at a place after a call. -/
def enter (p : Path) (r : Rows) : Call → Rows
  | .create _ _ => r
  | .visit name _ now deeds => if Path.ofText name = p then r.after now deeds else r

end Call

namespace Disk

variable {d d' : Disk} {call : Call} {name : String} {p : Path}

/-! ### One call -/

/-- A file that can be opened is no directory and stands in one. -/
theorem place_of_contents
    {n : Node}
    {found : Tables × Bool}
    (hd : d.IsTree)
    (hfind : d.find? p = some n)
    (hcontents : contents n = .ok found) :
    p ≠ [] ∧ d.hasDirectory p = false ∧ d.hasDirectory p.dropLast = true := by
  have hn : n ≠ .directory := by
    rintro rfl
    cases hcontents
  have hnot : d.hasDirectory p = false := by
    rw [hasDirectory, hfind]
    simpa using hn
  refine ⟨?_, hnot, hd p n hfind⟩
  rintro rfl
  rw [find?_nil] at hfind
  exact hn (Option.some.inj hfind).symm

/-- Opening a database changes the disk at its place alone, and there not the tables. -/
theorem openSession_changedAt
    {n : Node}
    {tables : Tables}
    {writeAhead : Bool}
    (hd : d.IsTree)
    (hname : d.Admits name)
    (hfind : d.find? (Path.ofText name) = some n)
    (hcontents : contents n = .ok (tables, writeAhead))
    (localNetworks : List Block)
    (now : Int) :
    ∃ d', d.openSession name localNetworks now =
        .ok ({ session := { committed := tables, localNetworks := localNetworks, now := now }
               home := some (Path.ofText name)
               journal := "wal" }, d') ∧
      ChangedAt (Path.ofText name) (Path.ofText name).journals d d' ∧
      d'.find? (Path.ofText name) = some (.database tables true) := by
  obtain ⟨hne, hnot, habove⟩ := place_of_contents hd hfind hcontents
  exact ⟨_, openSession_of_contents hd hname hfind hcontents localNetworks now,
    changedAt_clearJournals hne hnot habove (fun _ _ => rfl) writeAhead tables, find?_put_self hne⟩

/-- Creating a database changes the disk at its place alone. -/
theorem initDatabase_changedAt
    (hd : d.IsTree)
    (hname : d.Admits name)
    (hmissing : d.contains name = false)
    (habove : d.hasDirectory (Path.ofText name).dropLast = true)
    (now : Int) :
    ∃ d', d.initDatabase name now = .ok d' ∧
      ChangedAt (Path.ofText name) (Path.ofText name).journals d d' ∧
      d'.find? (Path.ofText name) = some (.database Tables.fresh true) := by
  have hnone := (contains_eq_false_iff hd hname).mp hmissing
  have hne : Path.ofText name ≠ [] := by
    intro hnil
    rw [hnil, find?_nil] at hnone
    cases hnone
  have hnot : d.hasDirectory (Path.ofText name) = false := by
    rw [hasDirectory, hnone]
    rfl
  have hsame : ∀ q, q ≠ Path.ofText name → (d.put (Path.ofText name) (.plain "")).find? q = d.find? q :=
    fun q hq => find?_put_of_ne hq
  have hmade := changedAt_clearJournals hne hnot habove hsame false Tables.none
  obtain ⟨hchanged, hfind⟩ := hmade.put Tables.fresh true
  exact ⟨_, initDatabase_of_missing hd hname hmissing habove now, hchanged, hfind⟩

/-- What can be opened at the place of a name, or that nothing can. -/
theorem contents_cases
    (d : Disk)
    (p : Path) :
    (∃ n tables writeAhead, d.find? p = some n ∧ contents n = .ok (tables, writeAhead)) ∨
      ∀ n found, d.find? p = some n → contents n ≠ .ok found := by
  by_cases h : ∃ n found, d.find? p = some n ∧ contents n = .ok found
  · obtain ⟨n, ⟨tables, writeAhead⟩, hfind, hcontents⟩ := h
    exact .inl ⟨n, tables, writeAhead, hfind, hcontents⟩
  · exact .inr fun n found hfind hcontents => h ⟨n, found, hfind, hcontents⟩

/-- A visit to a database leaves what was committed on the connection. -/
theorem perform_visit
    {n : Node}
    {tables : Tables}
    {writeAhead : Bool}
    (hd : d.IsTree)
    (hname : d.Admits name)
    (hfind : d.find? (Path.ofText name) = some n)
    (hcontents : contents n = .ok (tables, writeAhead))
    (localNetworks : List Block)
    (now : Int)
    (deeds : List Deed) :
    let d' := (Call.visit name localNetworks now deeds).perform d
    let s : Session := { committed := tables, localNetworks := localNetworks, now := now }
    ChangedAt (Path.ofText name) (Path.ofText name).journals d d' ∧
      d'.find? (Path.ofText name) =
        some (.database (deeds.foldl Deed.perform s).committed true) := by
  obtain ⟨d', hopen, hchanged, -⟩ := openSession_changedAt hd hname hfind hcontents localNetworks now
  simp only [Call.perform, hopen]
  exact hchanged.put _ true

theorem perform_of_fails
    (h : call.Fails d) :
    call.perform d = d := by
  cases call with
  | create name now =>
      obtain ⟨f, hf⟩ := h
      rw [Call.perform, hf]
  | visit name localNetworks now deeds =>
      obtain ⟨f, hf⟩ := h
      rw [Call.perform, hf]

/-- A call changes nothing, or it changes the disk at its own place. -/
theorem perform_cases
    (hd : d.IsTree)
    (hname : d.Admits call.name) :
    call.perform d = d ∨ ChangedAt call.place call.place.journals d (call.perform d) := by
  cases call with
  | create name now =>
      rw [Call.name] at hname
      cases hcontains : d.contains name with
      | true => exact .inl (perform_of_fails ⟨_, initDatabase_of_contains hcontains now⟩)
      | false =>
          cases habove : d.hasDirectory (Path.ofText name).dropLast with
          | true =>
              right
              obtain ⟨d', hmade, hchanged, -⟩ := initDatabase_changedAt hd hname hcontains habove now
              rw [Call.perform, hmade]
              exact hchanged
          | false => exact .inl (perform_of_fails (exists_initDatabase_error hd hname hcontains habove now))
  | visit name localNetworks now deeds =>
      rw [Call.name] at hname
      rcases d.contents_cases (Path.ofText name) with ⟨n, tables, writeAhead, hfind, hcontents⟩ | hnone
      · exact .inr (perform_visit hd hname hfind hcontents localNetworks now deeds).1
      · exact .inl (perform_of_fails (exists_openSession_error hd hname hnone localNetworks now))

end Disk
end Store
end AccessAudit
