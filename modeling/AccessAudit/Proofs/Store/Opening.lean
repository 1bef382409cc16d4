import AccessAudit.Proofs.Store.Places

/-!
# Opening and creating databases

By a name that a disk admits, a database is opened if and only if there is one, or an empty file, at the place of the
name; its tables stay as they are.  A database is created if and only if nothing stands there and there is a
directory to put it in.  What fails leaves the disk alone, and what succeeds changes it at that place, apart from
files at the names that the store needs beside it.
-/

namespace AccessAudit
namespace Store
namespace Disk

variable {d d' : Disk} {name : String} {n : Node}

section Admitted

variable (hd : d.IsTree) (hname : d.Admits name)
include hd hname

/-- Something stands where the system goes by a name if and only if it stands at the place that the store means. -/
theorem contains_eq_true_iff :
    d.contains name = true ↔ ∃ n, d.find? (Path.ofText name) = some n := by
  have hnonempty : decide (name ≠ "") = true := decide_eq_true hname.namesFile.ne_empty
  rw [contains, hnonempty, Bool.true_and, Option.isSome_iff_exists]
  constructor
  · rintro ⟨n, hn⟩
    obtain ⟨p, hp, hfind⟩ := Option.bind_eq_some_iff.mp hn
    rw [eq_ofText_of_place? hp] at hfind
    exact ⟨n, hfind⟩
  · rintro ⟨n, hn⟩
    exact ⟨n, by rw [hname.straight (hd _ _ hn), Option.bind_some, hn]⟩

theorem contains_eq_false_iff :
    d.contains name = false ↔ d.find? (Path.ofText name) = none := by
  rw [← Bool.not_eq_true, contains_eq_true_iff hd hname, Option.eq_none_iff_forall_ne_some, not_exists]

/-- What a file is opened to: what stands at its place, or a new empty one. -/
theorem openFile_eq
    (access : Access) :
    d.openFile name name access =
      match d.find? (Path.ofText name) with
      | some .directory => .error (.cannotOpen name)
      | some n => .ok (n, d)
      | none =>
          if access.create ∧ d.hasDirectory (Path.ofText name).dropLast then
            .ok (.plain "", d.put (Path.ofText name) (.plain ""))
          else .error (.cannotOpen name) := by
  have hroom : (Path.ofText name).journals.any d.hasDirectory = false :=
    List.any_eq_false.mpr fun q hq => by simp [hname.room q hq]
  cases hplace : d.storePlace? name with
  | none =>
      -- the store gets lost only on the way to what lies in no directory
      have habove : d.hasDirectory (Path.ofText name).dropLast = false := by
        rw [← Bool.not_eq_true]
        intro habove
        rw [storePlace?_of_place? (hname.straight habove)] at hplace
        cases hplace
      rw [openFile, hplace, hd.find?_eq_none habove]
      simp [habove]
  | some p =>
      obtain rfl := eq_ofText_of_storePlace? hplace
      rw [openFile, hplace]
      dsimp only
      rw [if_neg (by rw [hroom]; exact Bool.false_ne_true)]
      cases hfind : d.find? (Path.ofText name) with
      | none => simp [mayCreate, hfind]
      | some n => cases n <;> rfl

/-! ### Connecting -/

omit hd in
/-- A connection that may write is made to the database of the file that is opened, and to it alone. -/
theorem connect_of_contents
    {access : Access}
    {tables : Tables}
    {writeAhead : Bool}
    (hopen : d.openFile name name access = .ok (n, d'))
    (hcontents : contents n = .ok (tables, writeAhead))
    (hwrite : access.write = true)
    (now : Int)
    (connecting reading : Activity) :
    d.connect name access now connecting reading =
      .ok
        ({ session := { committed := tables, now := now }
           home := some (Path.ofText name)
           journal := "wal" },
          (d'.clearJournals (Path.ofText name) writeAhead).put (Path.ofText name) (.database tables true)) := by
  have hlog : enableWriteAhead access (tables, writeAhead) = .ok tables := by
    cases writeAhead with
    | true => rfl
    | false => exact if_pos hwrite
  rw [connect, hname.namesFile.location]
  simp only [Fault.during, bind, Except.bind, hopen, hcontents, hlog, hwrite]
  rfl

omit hd in
theorem exists_connect_error
    (access : Access)
    (now : Int)
    (connecting reading : Activity)
    (h : ∀ n d' found, d.openFile name name access = .ok (n, d') → contents n ≠ .ok found) :
    ∃ f, d.connect name access now connecting reading = .error f := by
  rw [connect, hname.namesFile.location]
  simp only [Fault.during, bind, Except.bind]
  cases hopen : d.openFile name name access with
  | error e => exact ⟨_, rfl⟩
  | ok opened =>
      cases hcontents : contents opened.1 with
      | error e =>
          dsimp only
          rw [hcontents]
          exact ⟨_, rfl⟩
      | ok found => exact absurd hcontents (h opened.1 opened.2 found hopen)

/-! ### Sessions -/

/-- A database, or an empty file, is opened with the tables that it has. -/
theorem openSession_of_contents
    {tables : Tables}
    {writeAhead : Bool}
    (hfind : d.find? (Path.ofText name) = some n)
    (hcontents : contents n = .ok (tables, writeAhead))
    (localNetworks : List Block)
    (now : Int) :
    d.openSession name localNetworks now =
      .ok
        ({ session := { committed := tables, localNetworks := localNetworks, now := now }
           home := some (Path.ofText name)
           journal := "wal" },
          (d.clearJournals (Path.ofText name) writeAhead).put (Path.ofText name) (.database tables true)) := by
  have hopen : d.openFile name name ⟨true, false⟩ = .ok (n, d) := by
    rw [openFile_eq hd hname, hfind]
    cases n with
    | directory => cases hcontents
    | plain text => rfl
    | database tables writeAhead => rfl
  rw [openSession, connect_of_contents hname hopen hcontents rfl]
  rfl

/-- What is missing, a directory, or a file with something else in it is not opened. -/
theorem exists_openSession_error
    (h : ∀ n found, d.find? (Path.ofText name) = some n → contents n ≠ .ok found)
    (localNetworks : List Block)
    (now : Int) :
    ∃ f, d.openSession name localNetworks now = .error f := by
  obtain ⟨f, hf⟩ : ∃ f, d.connect name ⟨true, false⟩ now (.connect name) (.readDatabase name) = .error f := by
    refine exists_connect_error hname _ _ _ _ fun n d' found hopen => ?_
    rw [openFile_eq hd hname] at hopen
    split at hopen
    · cases hopen
    · next hfind =>
        obtain ⟨rfl, -⟩ := Prod.mk.inj (Except.ok.inj hopen)
        exact h _ found hfind
    · rw [if_neg (fun hcreate => Bool.noConfusion hcreate.1)] at hopen
      cases hopen
  exact ⟨f, by rw [openSession, hf]; rfl⟩

/-! ### New databases -/

omit hd hname in
theorem initDatabase_of_contains
    (h : d.contains name = true)
    (now : Int) :
    d.initDatabase name now = .error { cause := .alreadyExists name } := by
  rw [initDatabase, if_pos h]

/-- Where nothing stands in a directory a database with both tables is made, without rows. -/
theorem initDatabase_of_missing
    (h : d.contains name = false)
    (habove : d.hasDirectory (Path.ofText name).dropLast = true)
    (now : Int) :
    d.initDatabase name now =
      .ok ((((d.put (Path.ofText name) (.plain "")).clearJournals (Path.ofText name) false).put
        (Path.ofText name) (.database Tables.none true)).put
        (Path.ofText name) (.database Tables.fresh true)) := by
  have hopen : d.openFile name name ⟨true, true⟩ =
      .ok (.plain "", d.put (Path.ofText name) (.plain "")) := by
    rw [openFile_eq hd hname, (contains_eq_false_iff hd hname).mp h]
    exact if_pos ⟨rfl, habove⟩
  rw [initDatabase, if_neg (by rw [h]; exact Bool.false_ne_true), connect_of_contents hname hopen rfl rfl]
  rfl

theorem exists_initDatabase_error
    (h : d.contains name = false)
    (habove : d.hasDirectory (Path.ofText name).dropLast = false)
    (now : Int) :
    ∃ f, d.initDatabase name now = .error f := by
  obtain ⟨f, hf⟩ : ∃ f, d.connect name ⟨true, true⟩ now (.createDatabase name) .enableWriteAhead = .error f := by
    refine exists_connect_error hname _ _ _ _ fun n d' found hopen => ?_
    rw [openFile_eq hd hname, (contains_eq_false_iff hd hname).mp h] at hopen
    dsimp only at hopen
    rw [habove, if_neg (fun hcreate => Bool.noConfusion hcreate.2)] at hopen
    cases hopen
  exact ⟨f, by rw [initDatabase, if_neg (by rw [h]; exact Bool.false_ne_true), hf]; rfl⟩

end Admitted

/-! ### What changes -/

theorem ChangedAt.put
    {p : Path}
    {journals : List Path}
    (h : ChangedAt p journals d d')
    (tables : Tables)
    (writeAhead : Bool) :
    ChangedAt p journals d (d'.put p (.database tables writeAhead)) ∧
      (d'.put p (.database tables writeAhead)).find? p = some (.database tables writeAhead) := by
  have hne : p ≠ [] := by
    rintro rfl
    exact absurd h.hasFile (by simp [Disk.hasFile])
  refine ⟨⟨?_, h.not_hasDirectory, h.hasDirectory_above, fun q hq => ?_⟩, find?_put_self hne⟩
  · rw [Disk.hasFile, find?_put_self hne]
    rfl
  · rw [find?_put_of_ne hq]
    exact h.elsewhere q hq

/-- A connection puts its database at its place and takes what stands at the names that it needs. -/
theorem changedAt_clearJournals
    {p : Path}
    (hne : p ≠ [])
    (hnot : d.hasDirectory p = false)
    (habove : d.hasDirectory p.dropLast = true)
    (hsame : ∀ q, q ≠ p → d'.find? q = d.find? q)
    (writeAhead : Bool)
    (tables : Tables) :
    ChangedAt p p.journals d ((d'.clearJournals p writeAhead).put p (.database tables true)) := by
  refine ⟨?_, hnot, habove, fun q hq => ?_⟩
  · rw [hasFile, find?_put_self hne]
    rfl
  · rw [find?_put_of_ne hq, ← hsame q hq, hasFile, ← hsame q hq]
    exact d'.find?_clearJournals p writeAhead q

end Disk
end Store
end AccessAudit
