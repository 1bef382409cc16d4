import AccessAudit.Proofs.Directory.Lines

/-!
# Lines that begin with an attribute

A line that begins with an attribute and a colon has an id if one run of ink stands behind the colon, and
then the id counts or the whole fails.  Every other line is passed over without a fault: one without a
value, one with a second colon and a value in base 64, one with blanks in its value, and one that ends in a
carriage return, which is neither ink nor a blank or a tab.  From a text whose lines all end in a carriage
return and a line feed, no id is read at all.
-/

namespace AccessAudit
namespace Directory

/-! ### The numbers of a line -/

/-- A line by itself has the number of its run, if it has one. -/
theorem numbers_line
    {name : String}
    (hname : '\n' ∉ name.toList)
    {line : List Char}
    (hline : '\n' ∉ line) :
    numbers name (String.ofList line) = ((entryRun? name.toList line).toList).mapM (readValue name) := by
  rw [numbers, String.toList_ofList, values_eq_entryRuns hname, List.splitOn_eq_singleton hline]
  cases hrun : entryRun? name.toList line with
  | none => rw [List.filterMap_cons_none hrun, List.filterMap_nil, Option.toList_none]
  | some run => rw [List.filterMap_cons_some hrun, List.filterMap_nil, Option.toList_some]

theorem numbers_line_of_none
    {name : String}
    (hname : '\n' ∉ name.toList)
    {line : List Char}
    (hline : '\n' ∉ line)
    (hrun : entryRun? name.toList line = none) :
    numbers name (String.ofList line) = .ok [] := by
  rw [numbers_line hname hline, hrun]
  rfl

theorem numbers_line_of_some
    {name : String}
    (hname : '\n' ∉ name.toList)
    {line run : List Char}
    (hline : '\n' ∉ line)
    (hrun : entryRun? name.toList line = some run) :
    numbers name (String.ofList line) = (readValue name run).map fun n => [n] := by
  rw [numbers_line hname hline, hrun, Option.toList_some, List.mapM_cons, List.mapM_nil]
  cases readValue name run <;> rfl

/-- The numbers of a text are those of its lines, one line after the other. -/
theorem numbers_eq_lines
    {name : String}
    (hname : '\n' ∉ name.toList)
    (text : String) :
    numbers name text =
      ((text.toList.splitOn '\n').mapM fun line => numbers name (String.ofList line)).map List.flatten := by
  have hlines : ∀ line ∈ text.toList.splitOn '\n', '\n' ∉ line := fun line hmem =>
    Text.not_mem_of_mem_splitOn hmem
  rw [numbers, values_eq_entryRuns hname]
  generalize text.toList.splitOn '\n' = lines at hlines ⊢
  induction lines with
  | nil => rfl
  | cons line rest ih =>
      obtain ⟨hline, hrest⟩ := List.forall_mem_cons.mp hlines
      rw [List.mapM_cons]
      cases hrun : entryRun? name.toList line with
      | none =>
          rw [List.filterMap_cons_none hrun, ih hrest, numbers_line_of_none hname hline hrun]
          cases rest.mapM fun line => numbers name (String.ofList line) <;> rfl
      | some run =>
          rw [List.filterMap_cons_some hrun, List.mapM_cons, ih hrest,
            numbers_line_of_some hname hline hrun]
          cases readValue name run with
          | error f => rfl
          | ok n => cases rest.mapM fun line => numbers name (String.ofList line) <;> rfl

/-- A fault on a line is a fault of the text. -/
theorem exists_fault_of_line
    {name : String}
    (hname : '\n' ∉ name.toList)
    {text : String}
    {line : List Char}
    (hmem : line ∈ text.toList.splitOn '\n')
    {f : Fault}
    (hfault : numbers name (String.ofList line) = .error f) :
    ∃ f', numbers name text = .error f' := by
  rw [numbers_eq_lines hname]
  cases hall : (text.toList.splitOn '\n').mapM fun line => numbers name (String.ofList line) with
  | error f' => exact ⟨f', rfl⟩
  | ok found =>
      obtain ⟨i, hi, rfl⟩ := List.getElem_of_mem hmem
      have hfound := (mapM_eq_ok_iff _ _ _).mp hall
      have hget := hfound.get hi (hfound.length_eq ▸ hi)
      rw [List.get_eq_getElem, hfault] at hget
      cases hget

/-! ### Carriage returns -/

/-- A line that ends in a carriage return has no run. -/
theorem entryRun?_of_return
    {name line : List Char}
    (hreturn : line.getLast? = some '\r') :
    entryRun? name line = none := by
  refine Option.eq_none_iff_forall_ne_some.mpr fun run hrun => ?_
  obtain ⟨rest, hrest, hne, hink, gap, gap', rfl, hgaps⟩ := entryRun?_eq_some_iff.mp hrun
  obtain ⟨word, rfl, -⟩ := behindName?_eq_some_iff.mp hrest
  have hlast : '\r' ∈ run ++ gap' := by
    have hne' : run ++ gap' ≠ [] := List.append_ne_nil_of_left_ne_nil hne gap'
    have hline : word ++ ':' :: (gap ++ run ++ gap') = (word ++ ':' :: gap) ++ (run ++ gap') := by simp
    rw [hline, List.getLast?_append_of_ne_nil _ hne'] at hreturn
    exact List.mem_of_getLast? hreturn
  rcases List.mem_append.mp hlast with hmem | hmem
  · exact absurd (hink _ hmem) (by decide)
  · exact absurd (hgaps _ (List.mem_append_right gap hmem)) (by decide)

/-- Where every line ends in a carriage return, nothing is found and nothing is at fault. -/
theorem numbers_of_returns
    {name : String}
    (hname : '\n' ∉ name.toList)
    {text : String}
    (hreturns : ∀ line ∈ text.toList.splitOn '\n', line = [] ∨ line.getLast? = some '\r') :
    numbers name text = .ok [] := by
  have hnone : ∀ line ∈ text.toList.splitOn '\n', entryRun? name.toList line = none := by
    intro line hmem
    rcases hreturns line hmem with rfl | hreturn
    · cases name.toList <;> rfl
    · exact entryRun?_of_return hreturn
  rw [numbers, values_eq_entryRuns hname, List.filterMap_eq_nil_iff.mpr hnone]
  rfl

/-! ### Lines with the attribute -/

/-- The numbers of a text are those of its lines.  A line that begins with the attribute and a colon, and
has one run behind it, has one number, or the run is no number and makes the whole fail; any other line has
none and is no fault.  Therefore a text whose lines all end in a carriage return has no numbers. -/
theorem named_lines_counted_or_skipped
    (name : String)
    (hname : '\n' ∉ name.toList)
    (text : String) :
    let lines := text.toList.splitOn '\n'
    numbers name text = (lines.mapM fun line => numbers name (String.ofList line)).map List.flatten ∧
    (∀ line ∈ lines, ∀ rest run, behindName? name.toList line = some rest → IsOneRun rest run →
      (∃ n, Decimal.DenotesInt64 run n ∧ numbers name (String.ofList line) = .ok [n]) ∨
      (∀ n, ¬Decimal.DenotesInt64 run n) ∧ ∃ f, numbers name text = .error f) ∧
    (∀ line ∈ lines, (∀ rest run, behindName? name.toList line = some rest → ¬IsOneRun rest run) →
      numbers name (String.ofList line) = .ok []) ∧
    ((∀ line ∈ lines, line = [] ∨ line.getLast? = some '\r') → numbers name text = .ok []) := by
  intro lines
  have hlines : ∀ line ∈ lines, '\n' ∉ line := fun line hmem => Text.not_mem_of_mem_splitOn hmem
  refine ⟨numbers_eq_lines hname text, ?one, ?other, fun hreturns => numbers_of_returns hname hreturns⟩
  case one =>
    intro line hmem rest run hrest hone
    have hrun : entryRun? name.toList line = some run := entryRun?_eq_some_iff.mpr ⟨rest, hrest, hone⟩
    have hnumbers := numbers_line_of_some hname (hlines line hmem) hrun
    cases hread : readValue name run with
    | ok n =>
        rw [hread] at hnumbers
        exact .inl ⟨n, readValue_eq_ok_iff.mp hread, hnumbers⟩
    | error f =>
        rw [hread] at hnumbers
        refine .inr ⟨fun n hn => ?_, exists_fault_of_line hname hmem hnumbers⟩
        rw [← @readValue_eq_ok_iff name, hread] at hn
        cases hn
  case other =>
    intro line hmem hother
    refine numbers_line_of_none hname (hlines line hmem) ?_
    refine Option.eq_none_iff_forall_ne_some.mpr fun run hrun => ?_
    obtain ⟨rest, hrest, hone⟩ := entryRun?_eq_some_iff.mp hrun
    exact hother rest run hrest hone

/-- An id, an id in base 64, and an id before a carriage return. -/
def threeIds : String :=
  "uidNumber: 1001\nuidNumber:: MTAwMg==\nUIDNUMBER: 1003\r\n"

/-- Of the three lines with an id the first one counts. -/
theorem threeIds_one_counted :
    numbers "uidNumber" threeIds = .ok [1001] := by
  have hname : '\n' ∉ "uidNumber".toList := by decide
  obtain ⟨hnumbers, hone, hother, -⟩ := named_lines_counted_or_skipped "uidNumber" hname threeIds
  have hlines : threeIds.toList.splitOn '\n' =
      ["uidNumber: 1001".toList, "uidNumber:: MTAwMg==".toList, "UIDNUMBER: 1003\r".toList, []] := by
    decide +kernel
  have hfirst : entryRun? "uidNumber".toList "uidNumber: 1001".toList = some "1001".toList := by
    decide +kernel
  have hread : Decimal.DenotesInt64 "1001".toList 1001 := Decimal.readInt64_eq_ok_iff.mp (by decide)
  have hnone : ∀ line ∈ ["uidNumber:: MTAwMg==".toList, "UIDNUMBER: 1003\r".toList, []],
      entryRun? "uidNumber".toList line = none := by
    decide +kernel
  have hskipped : ∀ line ∈ ["uidNumber:: MTAwMg==".toList, "UIDNUMBER: 1003\r".toList, []],
      numbers "uidNumber" (String.ofList line) = .ok [] := by
    intro line hmem
    refine hother line (hlines ▸ List.mem_cons_of_mem _ hmem) fun rest run hrest hrun => ?_
    have hsome := entryRun?_eq_some_iff.mpr ⟨rest, hrest, hrun⟩
    rw [hnone line hmem] at hsome
    cases hsome
  obtain ⟨rest, hrest, hrun⟩ := entryRun?_eq_some_iff.mp hfirst
  rcases hone _ (hlines ▸ List.mem_cons_self) rest _ hrest hrun with ⟨n, hn, hcounted⟩ | ⟨hnever, -⟩
  · obtain rfl : n = 1001 :=
      Except.ok.inj ((Decimal.readInt64_eq_ok_iff.mpr hn).symm.trans (Decimal.readInt64_eq_ok_iff.mpr hread))
    obtain ⟨hsecond, hthird, hlast, -⟩ : _ ∧ _ ∧ _ ∧ _ := by simpa only [List.forall_mem_cons] using hskipped
    have hfound := (mapM_eq_ok_iff (fun line => numbers "uidNumber" (String.ofList line)) _ _).mpr
      (.cons hcounted (.cons hsecond (.cons hthird (.cons hlast .nil))))
    rw [hnumbers, hlines, hfound]
    rfl
  · exact absurd hread (hnever 1001)

/-- An account, told in lines that end in a carriage return and a line feed. -/
def returnedAccount : String :=
  "dn: uid=alice\r\nuidNumber: 1001\r\n"

/-- The line with the id begins with the attribute and a colon; it has no id and is no fault. -/
theorem returnedAccount_dropped :
    "uidNumber: 1001\r".toList ∈ returnedAccount.toList.splitOn '\n' ∧
    behindName? "uidNumber".toList "uidNumber: 1001\r".toList = some " 1001\r".toList ∧
    numbers "uidNumber" returnedAccount = .ok [] := by
  refine ⟨by decide +kernel, by decide +kernel, numbers_of_returns (by decide) ?_⟩
  decide +kernel

end Directory
end AccessAudit
