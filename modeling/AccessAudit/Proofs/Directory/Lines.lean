import AccessAudit.Directory.Search
import AccessAudit.Proofs.Basic
import AccessAudit.Proofs.Decimal.Numerals
import AccessAudit.Proofs.Directory.Entries

/-!
# Directory entries line by line

A line has a value of an attribute if it consists of the attribute in any letter case, a colon, and one run
of ink between blanks or tabs.  There is one such run at most.  The search for an attribute in a text finds
the runs of its lines, in order, and nothing that goes beyond a line.
-/

namespace AccessAudit
namespace Directory

/-- A line that consists of an attribute, a colon, and one run without white space between blanks or tabs. -/
def IsEntry (name line run : List Char) : Prop :=
  run ≠ [] ∧ (∀ c ∈ run, Text.isBlank c = false) ∧
  ∃ word gap gap',
    line = word ++ ':' :: (gap ++ run ++ gap') ∧
    Text.lowerAscii word = Text.lowerAscii name ∧
    ∀ c ∈ gap ++ gap', c = ' ' ∨ c = '\t'

/-- The run of a line, if it has one. -/
def runOf? (name line : List Char) : Option (List Char) :=
  if Text.lowerAscii (line.take name.length) = Text.lowerAscii name then
    match line.drop name.length with
    | ':' :: rest =>
        let value := rest.dropWhile isGap
        let run := value.takeWhile isInk
        if run ≠ [] ∧ (value.dropWhile isInk).all isGap then some run else none
    | _ => none
  else none

/-- A line has a run if and only if it is an entry with that run. -/
theorem runOf?_eq_some_iff
    {name line run : List Char} :
    runOf? name line = some run ↔ IsEntry name line run := by
  unfold runOf? IsEntry
  constructor
  · intro h
    split at h
    · next hword =>
        split at h
        · next rest hrest =>
            obtain ⟨hne, hrun, gap, gap', rfl, hgaps⟩ := oneRun?_eq_some_iff.mp h
            refine ⟨hne, hrun, line.take name.length, gap, gap', ?_, hword, hgaps⟩
            rw [← hrest, List.take_append_drop]
        · cases h
    · cases h
  · rintro ⟨hne, hrun, word, gap, gap', rfl, hword, hgaps⟩
    have hlength : name.length = word.length := by
      simpa [Text.lowerAscii] using (congrArg List.length hword).symm
    rw [hlength, List.take_left, if_pos hword, List.drop_left]
    exact oneRun?_eq_some_iff.mpr ⟨hne, hrun, gap, gap', rfl, hgaps⟩

section PlainName

variable {name : List Char} (hname : ∀ c ∈ name, Text.IsPlainLetter c)

include hname

/-- A name of plain letters is found in the cases of ASCII. -/
theorem entryRun?_eq_runOf?
    (line : List Char) :
    entryRun? name line = runOf? name line := by
  refine Option.ext fun run => ?_
  rw [runOf?_eq_some_iff, entryRun?_eq_some_iff]
  simp only [behindName?_eq_some_iff, Text.forall₂_sameLetter_iff hname]
  constructor
  · rintro ⟨-, ⟨word, rfl, hword⟩, hne, hrun, gap, gap', rfl, hgaps⟩
    exact ⟨hne, hrun, word, gap, gap', rfl, hword, hgaps⟩
  · rintro ⟨hne, hrun, word, gap, gap', rfl, hword, hgaps⟩
    exact ⟨_, ⟨word, rfl, hword⟩, hne, hrun, gap, gap', rfl, hgaps⟩

theorem feed_not_mem_of_plain :
    '\n' ∉ name :=
  fun hmem => absurd (hname _ hmem) (by decide)

theorem not_mem_of_runOf?
    {line run : List Char}
    (h : runOf? name line = some run) :
    '\n' ∉ line :=
  not_mem_of_entryRun? (feed_not_mem_of_plain hname) ((entryRun?_eq_runOf? hname line).trans h)

/-- The values of an attribute are the runs of the lines. -/
theorem values_eq_runs
    (text : List Char) :
    values name text = (text.splitOn '\n').filterMap (runOf? name) := by
  rw [values_eq_entryRuns (feed_not_mem_of_plain hname), funext (entryRun?_eq_runOf? hname)]

end PlainName

/-! ### Numbers -/

theorem readValue_eq_ok_iff
    {name : String}
    {run : List Char}
    {n : Int} :
    readValue name run = .ok n ↔ Decimal.DenotesInt64 run n := by
  rw [← Decimal.readInt64_eq_ok_iff, readValue]
  cases Decimal.readInt64 run with
  | ok m => simp
  | error fault => exact iff_of_false nofun nofun

theorem readValue_eq_error_iff
    {name : String}
    {run : List Char}
    {f : Fault} :
    readValue name run = .error f ↔
      ∃ fault, Decimal.readInt64 run = .error fault ∧
        f = { activities := [.readValue name (String.ofList run)], cause := .numeral fault } := by
  rw [readValue]
  cases Decimal.readInt64 run with
  | ok m => simp
  | error fault => simp [eq_comm]

theorem numbers_append
    {name : String}
    (hname : ∀ c ∈ name.toList, Text.IsPlainLetter c)
    (text more : String) :
    numbers name (text ++ "\n" ++ more) =
      (numbers name text).bind fun ns => (numbers name more).map fun ms => ns ++ ms := by
  have hlines : (text ++ "\n" ++ more).toList.splitOn '\n' =
      text.toList.splitOn '\n' ++ more.toList.splitOn '\n' := by
    have happend : (text ++ "\n" ++ more).toList = text.toList ++ '\n' :: more.toList := by simp
    rw [happend, List.splitOn_append_cons_self]
  simp only [numbers, values_eq_runs hname, hlines, List.filterMap_append, List.mapM_append]
  rfl

/-! ### Accounts -/

/-- An account as the directory tells it: the line that names it, and its id. -/
def accountText (dn : String) (id : Int) : String :=
  "dn: " ++ dn ++ "\nuidNumber: " ++ Decimal.text id ++ "\n\n"

/-- Accounts as the directory tells them. -/
def accountsText : List (String × Int) → String
  | [] => ""
  | (dn, id) :: rest => accountText dn id ++ accountsText rest

theorem isPlainLetter_of_mem_idAttribute :
    ∀ c ∈ idAttribute.toList, Text.IsPlainLetter c := by
  have hall : idAttribute.toList.all (fun c => decide (Text.IsPlainLetter c)) = true := by decide
  exact fun c hc => of_decide_eq_true (List.all_eq_true.mp hall c hc)

/-- The line of an id has it as its run. -/
theorem runOf?_id
    (id : Int) :
    runOf? idAttribute.toList ("uidNumber: ".toList ++ Decimal.signed id) = some (Decimal.signed id) := by
  refine runOf?_eq_some_iff.mpr
    ⟨Decimal.signed_ne_nil id, fun c hc => ?_, idAttribute.toList, [' '], [], ?_, rfl, ?_⟩
  · rcases Decimal.eq_minus_or_isDigit_of_mem_signed hc with rfl | hc
    · rfl
    · exact Decimal.isBlank_of_isDigit hc
  · simp [idAttribute]
  · simp

/-- The line that names an account has no run. -/
theorem runOf?_dn
    (dn : List Char) :
    runOf? idAttribute.toList ("dn: ".toList ++ dn) = none := by
  refine if_neg fun h => ?_
  have hhead := congrArg List.head? h
  simp [idAttribute, Text.lowerAscii] at hhead

theorem runs_accountsText
    (accounts : List (String × Int))
    (hdns : ∀ account ∈ accounts, '\n' ∉ account.1.toList) :
    ((accountsText accounts).toList.splitOn '\n').filterMap (runOf? idAttribute.toList) =
      accounts.map fun account => Decimal.signed account.2 := by
  induction accounts with
  | nil => rfl
  | cons account rest ih =>
      obtain ⟨dn, id⟩ := account
      obtain ⟨hdn, hrest⟩ := List.forall_mem_cons.mp hdns
      have htext : (accountsText ((dn, id) :: rest)).toList =
          ("dn: ".toList ++ dn.toList) ++ '\n' ::
            (("uidNumber: ".toList ++ Decimal.signed id) ++ '\n' ::
              ([] ++ '\n' :: (accountsText rest).toList)) := by
        simp [accountsText, accountText, Decimal.text]
      have hfirst : '\n' ∉ "dn: ".toList ++ dn.toList := by
        simpa using hdn
      have hsecond : '\n' ∉ "uidNumber: ".toList ++ Decimal.signed id :=
        not_mem_of_runOf? isPlainLetter_of_mem_idAttribute (runOf?_id id)
      have hempty : runOf? idAttribute.toList [] = none := rfl
      rw [htext, List.splitOn_append_cons_self_of_not_mem hfirst,
        List.splitOn_append_cons_self_of_not_mem hsecond,
        List.splitOn_append_cons_self_of_not_mem List.not_mem_nil, List.filterMap_cons_none (runOf?_dn _),
        List.filterMap_cons_some (runOf?_id id), List.filterMap_cons_none hempty, ih hrest]
      rfl

/-! ### The numbers of a text -/

theorem numbers_eq_ok_iff
    {name : String}
    (hname : ∀ c ∈ name.toList, Text.IsPlainLetter c)
    {text : String}
    {ns : List Int} :
    numbers name text = .ok ns ↔
      List.Forall₂ Decimal.DenotesInt64
        ((text.toList.splitOn '\n').filterMap (runOf? name.toList)) ns := by
  simp only [numbers, values_eq_runs hname, mapM_eq_ok_iff, readValue_eq_ok_iff]

/-- Accounts are read back from the text that tells them. -/
theorem numbers_accountsText
    (accounts : List (String × Int))
    (haccounts : ∀ account ∈ accounts,
      '\n' ∉ account.1.toList ∧ -2 ^ 63 ≤ account.2 ∧ account.2 < 2 ^ 63) :
    numbers idAttribute (accountsText accounts) = .ok (accounts.map (·.2)) := by
  rw [numbers_eq_ok_iff isPlainLetter_of_mem_idAttribute,
    runs_accountsText accounts fun account h => (haccounts account h).1, List.forall₂_map_left_iff,
    List.forall₂_map_right_iff, List.forall₂_same]
  intro account h
  obtain ⟨-, hlo, hhi⟩ := haccounts account h
  exact Decimal.denotesInt64_signed hlo hhi

/-- The numbers of an attribute are read line by line: the runs of the lines that are entries, in order.
The first run that is no number of 64 bits is the fault.  Nothing that is found goes beyond a line, texts
that are joined by a line feed are read one after the other, and accounts are read back as they were told. -/
theorem numbers_line_by_line
    (name : String)
    (hname : ∀ c ∈ name.toList, Text.IsPlainLetter c)
    (text : String) :
    let runs := (text.toList.splitOn '\n').filterMap (runOf? name.toList)
    -- the run of a line is that of an entry
    (∀ line run, runOf? name.toList line = some run ↔ IsEntry name.toList line run) ∧
    -- the numbers of all runs, if all are numbers, and else the first that is none
    (∀ ns, numbers name text = .ok ns ↔ List.Forall₂ Decimal.DenotesInt64 runs ns) ∧
    (∀ f,
      numbers name text = .error f ↔
        ∃ before run after fault,
          runs = before ++ run :: after ∧
          (∀ earlier ∈ before, ∃ n, Decimal.DenotesInt64 earlier n) ∧
          (∀ n, ¬Decimal.DenotesInt64 run n) ∧
          Decimal.readInt64 run = .error fault ∧
          f = { activities := [.readValue name (String.ofList run)], cause := .numeral fault }) ∧
    -- nothing is found across lines, so texts can be cut at line feeds
    (∀ x ∈ (entry name.toList).findAll text.toList, '\n' ∉ x.text) ∧
    (∀ more,
      numbers name (text ++ "\n" ++ more) =
        (numbers name text).bind fun ns => (numbers name more).map fun ms => ns ++ ms) ∧
    -- what is told of accounts is read back
    ∀ accounts : List (String × Int),
      (∀ account ∈ accounts, '\n' ∉ account.1.toList ∧ -2 ^ 63 ≤ account.2 ∧ account.2 < 2 ^ 63) →
      numbers idAttribute (accountsText accounts) = .ok (accounts.map (·.2)) := by
  intro runs
  refine ⟨fun line run => runOf?_eq_some_iff, fun ns => numbers_eq_ok_iff hname, fun f => ?_,
    fun x hx => (readsLines_entry (feed_not_mem_of_plain hname)).not_mem_text hx, numbers_append hname text,
    numbers_accountsText⟩
  simp only [numbers, values_eq_runs hname, mapM_eq_error_iff, readValue_eq_ok_iff,
    readValue_eq_error_iff]
  constructor
  · rintro ⟨before, run, after, hruns, hbefore, fault, hfault, rfl⟩
    refine ⟨before, run, after, fault, hruns, hbefore, fun n hn => ?_, hfault, rfl⟩
    rw [← Decimal.readInt64_eq_ok_iff, hfault] at hn
    cases hn
  · rintro ⟨before, run, after, fault, hruns, hbefore, -, hfault, rfl⟩
    exact ⟨before, run, after, hruns, hbefore, fault, hfault, rfl⟩

/-- Two ids among lines that are none: one of another attribute, one with two values, and one whose value
stands on the next line. -/
def mixedLines : String :=
  "dn: uid=alice\nUIDNUMBER:\t+1001 \nuidNumber: 1002 1003\nuidNumber:\n1004\nuidNumber:-7"

/-- Two values that are no numbers. -/
def brokenLines : String :=
  "uidNumber: 12a\nuidNumber: 9223372036854775808"

/-- The ids are read in order; behind them the first value that is no number is the fault. -/
theorem mixedLines_numbers :
    numbers "uidNumber" mixedLines = .ok [1001, -7] ∧
    numbers "uidNumber" (mixedLines ++ "\n" ++ brokenLines) =
      .error { activities := [.readValue "uidNumber" "12a"], cause := .numeral .invalidDigit } := by
  have hname := isPlainLetter_of_mem_idAttribute
  obtain ⟨-, hok, -, -, happend, -⟩ := numbers_line_by_line "uidNumber" hname mixedLines
  obtain ⟨-, -, herror, -⟩ := numbers_line_by_line "uidNumber" hname brokenLines
  have hruns : (mixedLines.toList.splitOn '\n').filterMap (runOf? "uidNumber".toList) =
      ["+1001".toList, "-7".toList] := by
    decide +kernel
  have hbroken : (brokenLines.toList.splitOn '\n').filterMap (runOf? "uidNumber".toList) =
      [] ++ "12a".toList :: ["9223372036854775808".toList] := by
    decide +kernel
  have hread : numbers "uidNumber" mixedLines = .ok [1001, -7] := by
    rw [hok, hruns]
    refine .cons (Decimal.readInt64_eq_ok_iff.mp ?_) (.cons (Decimal.readInt64_eq_ok_iff.mp ?_) .nil)
    · decide
    · decide
  have hfault : Decimal.readInt64 "12a".toList = .error .invalidDigit := by decide
  refine ⟨hread, ?_⟩
  have hnone : ∀ n, ¬Decimal.DenotesInt64 "12a".toList n := by
    intro n hn
    rw [← Decimal.readInt64_eq_ok_iff, hfault] at hn
    cases hn
  have hfails := (herror _).mpr
    ⟨[], "12a".toList, _, .invalidDigit, hbroken, nofun, hnone, hfault, rfl⟩
  rw [happend, hread, hfails]
  rfl

end Directory
end AccessAudit
