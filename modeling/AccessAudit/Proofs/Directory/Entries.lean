import AccessAudit.Directory.Ldif
import AccessAudit.Proofs.Text.LetterCase
import AccessAudit.Proofs.Text.Pattern
import Mathlib.Data.List.TakeWhile

/-!
# Entries of an attribute

The search for an attribute goes through a text line by line, whatever the name of the attribute is.  Of a
line that begins with the name, in any letter case, and a colon, it takes the one run of ink behind the
colon; what else stands there can only be blanks and tabs.  Any other line is passed over.
-/

namespace AccessAudit
namespace Directory

theorem isGap_iff
    {c : Char} :
    isGap c = true ↔ c = ' ' ∨ c = '\t' := by
  simp [isGap]

theorem isInk_iff
    {c : Char} :
    isInk c = true ↔ Text.isBlank c = false := by
  simp [isInk]

theorem isInk_of_isGap
    {c : Char}
    (h : isGap c = true) :
    isInk c = false := by
  rcases isGap_iff.mp h with rfl | rfl <;> rfl

/-- Behind the colon, the run is what is left between the gaps. -/
theorem run_between_gaps
    {gap run gap' : List Char}
    (hgap : ∀ c ∈ gap, isGap c = true)
    (hne : run ≠ [])
    (hrun : ∀ c ∈ run, isInk c = true)
    (hgap' : ∀ c ∈ gap', isGap c = true) :
    let value := (gap ++ run ++ gap').dropWhile isGap
    value.takeWhile isInk = run ∧ value.dropWhile isInk = gap' := by
  intro value
  have hvalue : value = run ++ gap' := by
    obtain ⟨c, rest, rfl⟩ := List.exists_cons_of_ne_nil hne
    have hc : ¬isGap c = true := fun h =>
      absurd (hrun c List.mem_cons_self) (by rw [isInk_of_isGap h]; decide)
    show (gap ++ c :: rest ++ gap').dropWhile isGap = _
    rw [List.append_assoc, List.dropWhile_append_of_pos hgap, List.cons_append,
      List.dropWhile_cons_of_neg hc]
  have hink : ∀ c ∈ gap', isInk c = false := fun c hc => isInk_of_isGap (hgap' c hc)
  rw [hvalue, List.takeWhile_append_of_pos hrun, List.dropWhile_append_of_pos hrun]
  cases gap' with
  | nil => simp
  | cons c rest =>
      have hc : ¬isInk c = true := by simp [hink c List.mem_cons_self]
      rw [List.takeWhile_cons_of_neg hc, List.dropWhile_cons_of_neg hc, List.append_nil]
      exact ⟨rfl, rfl⟩

/-! ### Lines that begin with a name -/

/-- What stands behind the colon of a line that begins with a name, in any letter case, and a colon. -/
def behindName? : List Char → List Char → Option (List Char)
  | [], ':' :: rest => some rest
  | c :: name, d :: line => if Text.sameLetter c d then behindName? name line else none
  | _, _ => none

/-- A text that is one run without white space between blanks or tabs. -/
def IsOneRun (text run : List Char) : Prop :=
  run ≠ [] ∧ (∀ c ∈ run, Text.isBlank c = false) ∧
  ∃ gap gap', text = gap ++ run ++ gap' ∧ ∀ c ∈ gap ++ gap', c = ' ' ∨ c = '\t'

/-- The run of a text that is one run between blanks or tabs. -/
def oneRun? (text : List Char) : Option (List Char) :=
  let value := text.dropWhile isGap
  let run := value.takeWhile isInk
  if run ≠ [] ∧ (value.dropWhile isInk).all isGap then some run else none

/-- What an attribute has on a line. -/
def entryRun? (name line : List Char) : Option (List Char) :=
  (behindName? name line).bind oneRun?

theorem behindName?_eq_some_iff
    {name line rest : List Char} :
    behindName? name line = some rest ↔
      ∃ word, line = word ++ ':' :: rest ∧
        List.Forall₂ (fun c d => Text.sameLetter c d = true) name word := by
  induction name generalizing line with
  | nil =>
      simp only [List.forall₂_nil_left_iff]
      constructor
      · intro h
        unfold behindName? at h
        split at h
        · obtain rfl := Option.some.inj h
          exact ⟨[], rfl, rfl⟩
        · contradiction
        · cases h
      · rintro ⟨word, rfl, rfl⟩
        rfl
  | cons c name ih =>
      simp only [List.forall₂_cons_left_iff]
      cases line with
      | nil =>
          refine iff_of_false nofun ?_
          rintro ⟨word, hline, d, word', -, -, rfl⟩
          cases hline
      | cons d line =>
          rw [behindName?]
          split
          · next hcase =>
              rw [ih]
              constructor
              · rintro ⟨word, rfl, hword⟩
                exact ⟨d :: word, rfl, d, word, hcase, hword, rfl⟩
              · rintro ⟨word, hline, d', word', -, hword', rfl⟩
                obtain ⟨rfl, rfl⟩ := List.cons.inj hline
                exact ⟨word', rfl, hword'⟩
          · next hcase =>
              refine iff_of_false nofun ?_
              rintro ⟨word, hline, d', word', hcase', -, rfl⟩
              obtain ⟨rfl, -⟩ := List.cons.inj hline
              exact hcase hcase'

theorem oneRun?_eq_some_iff
    {text run : List Char} :
    oneRun? text = some run ↔ IsOneRun text run := by
  unfold oneRun? IsOneRun
  constructor
  · intro h
    dsimp only at h
    split at h
    · next hshape =>
        obtain ⟨hne, hgap'⟩ := hshape
        obtain rfl := Option.some.inj h
        refine ⟨hne, fun c hc => isInk_iff.mp (List.mem_takeWhile_imp hc), text.takeWhile isGap,
          (text.dropWhile isGap).dropWhile isInk, ?_, ?_⟩
        · rw [List.append_assoc, List.takeWhile_append_dropWhile, List.takeWhile_append_dropWhile]
        · intro c hc
          rcases List.mem_append.mp hc with hc | hc
          · exact isGap_iff.mp (List.mem_takeWhile_imp hc)
          · exact isGap_iff.mp (List.all_eq_true.mp hgap' c hc)
    · cases h
  · rintro ⟨hne, hrun, gap, gap', rfl, hgaps⟩
    have hgap : ∀ c ∈ gap, isGap c = true := fun c hc =>
      isGap_iff.mpr (hgaps c (List.mem_append_left gap' hc))
    have hgap' : ∀ c ∈ gap', isGap c = true := fun c hc =>
      isGap_iff.mpr (hgaps c (List.mem_append_right gap hc))
    obtain ⟨htake, hdrop⟩ := run_between_gaps hgap hne (fun c hc => isInk_iff.mpr (hrun c hc)) hgap'
    simp only [htake, hdrop]
    rw [if_pos ⟨hne, List.all_eq_true.mpr hgap'⟩]

theorem entryRun?_eq_some_iff
    {name line run : List Char} :
    entryRun? name line = some run ↔ ∃ rest, behindName? name line = some rest ∧ IsOneRun rest run := by
  simp only [entryRun?, Option.bind_eq_some_iff, oneRun?_eq_some_iff]

/-! ### The pattern of an entry -/

theorem allows_valueToEnd_iff
    {previous : Option Char}
    {x : Text.Stretch}
    {behind : List Char} :
    valueToEnd.Allows previous x behind ↔
      Text.EndsLine behind ∧
      ∃ gap run gap',
        (∀ c ∈ gap, isGap c = true) ∧
        (run ≠ [] ∧ ∀ c ∈ run, isInk c = true) ∧
        (∀ c ∈ gap', isGap c = true) ∧
        x = { text := gap ++ run ++ gap', groups := [run] } := by
  simp only [valueToEnd, Text.Pattern.allows_inOrder_iff, Text.Pattern.allows_many_iff,
    Text.Pattern.allows_group_iff, Text.Pattern.allows_atLeastOne_iff, Text.Pattern.allows_lineEnd_iff]
  constructor
  · -- the gap, then the run, then the gap behind it and the end of the line
    rintro ⟨⟨gap, -⟩, -, ⟨rfl, hgap⟩, ⟨-, -, ⟨⟨run, -⟩, ⟨rfl, hrun⟩, rfl⟩,
      ⟨⟨gap', -⟩, -, ⟨rfl, hgap'⟩, ⟨rfl, hend⟩, rfl⟩, rfl⟩, rfl⟩
    refine ⟨hend, gap, run, gap', hgap, hrun, hgap', ?_⟩
    simp [Text.Stretch.append]
  · rintro ⟨hend, gap, run, gap', hgap, hrun, hgap', rfl⟩
    have hgaps : ({ text := gap' } : Text.Stretch) = Text.Stretch.append { text := gap' } { text := [] } := by
      simp [Text.Stretch.append]
    refine ⟨{ text := gap }, { text := run ++ gap', groups := [run] }, ⟨rfl, hgap⟩,
      ⟨{ text := run, groups := [run] }, { text := gap' }, ⟨{ text := run }, ⟨rfl, hrun⟩, rfl⟩,
        ⟨{ text := gap' }, { text := [] }, ⟨rfl, hgap'⟩, ⟨rfl, hend⟩, hgaps⟩, rfl⟩, ?_⟩
    simp [Text.Stretch.append]

/-- The pattern of an entry allows whole lines that are put together like an entry. -/
theorem allows_entry_iff
    {name : List Char}
    {previous : Option Char}
    {x : Text.Stretch}
    {behind : List Char} :
    (entry name).Allows previous x behind ↔
      Text.StartsLine previous ∧ Text.EndsLine behind ∧
      ∃ word gap run gap',
        List.Forall₂ (fun c d => Text.sameLetter c d = true) name word ∧
        (∀ c ∈ gap, isGap c = true) ∧
        (run ≠ [] ∧ ∀ c ∈ run, isInk c = true) ∧
        (∀ c ∈ gap', isGap c = true) ∧
        x = { text := word ++ ':' :: (gap ++ run ++ gap'), groups := [run] } := by
  simp only [entry, Text.Pattern.allows_inOrder_iff, Text.Pattern.allows_lineStart_iff,
    Text.Pattern.allows_word_iff, Text.Pattern.allows_one_iff, allows_valueToEnd_iff]
  constructor
  · rintro ⟨-, -, ⟨rfl, hstart⟩, ⟨word, -, hword, ⟨-, -, ⟨c, hc, rfl⟩,
      ⟨hend, gap, run, gap', hgap, hrun, hgap', rfl⟩, rfl⟩, rfl⟩, rfl⟩
    obtain rfl := of_decide_eq_true hc
    exact ⟨hstart, hend, word, gap, run, gap', hword, hgap, hrun, hgap', rfl⟩
  · rintro ⟨hstart, hend, word, gap, run, gap', hword, hgap, hrun, hgap', rfl⟩
    exact ⟨{ text := [] }, _, ⟨rfl, hstart⟩,
      ⟨word, _, hword, ⟨{ text := [':'] }, _, ⟨':', by decide, rfl⟩,
        ⟨hend, gap, run, gap', hgap, hrun, hgap', rfl⟩, rfl⟩, rfl⟩, rfl⟩

/-- What the pattern of an entry allows is a whole line with a run. -/
theorem allows_entry_iff_entryRun?
    {name : List Char}
    {previous : Option Char}
    {x : Text.Stretch}
    {behind : List Char} :
    (entry name).Allows previous x behind ↔
      Text.StartsLine previous ∧ Text.EndsLine behind ∧
      ∃ run, entryRun? name x.text = some run ∧ x.groups = [run] := by
  simp only [allows_entry_iff, entryRun?_eq_some_iff, behindName?_eq_some_iff, isGap_iff, isInk_iff]
  refine and_congr_right fun _ => and_congr_right fun _ => ?_
  constructor
  · rintro ⟨word, gap, run, gap', hword, hgap, ⟨hne, hrun⟩, hgap', rfl⟩
    exact ⟨run, ⟨_, ⟨word, rfl, hword⟩, hne, hrun, gap, gap', rfl,
      List.forall_mem_append.mpr ⟨hgap, hgap'⟩⟩, rfl⟩
  · obtain ⟨text, groups⟩ := x
    rintro ⟨run, ⟨-, ⟨word, rfl, hword⟩, hne, hrun, gap, gap', rfl, hgaps⟩, rfl⟩
    obtain ⟨hgap, hgap'⟩ := List.forall_mem_append.mp hgaps
    exact ⟨word, gap, run, gap', hword, hgap, ⟨hne, hrun⟩, hgap', rfl⟩

section SingleLineName

variable {name : List Char} (hname : '\n' ∉ name)

include hname

theorem not_mem_of_entryRun?
    {line run : List Char}
    (h : entryRun? name line = some run) :
    '\n' ∉ line := by
  obtain ⟨rest, hrest, -, hrun, gap, gap', rfl, hgaps⟩ := entryRun?_eq_some_iff.mp h
  obtain ⟨word, rfl, hword⟩ := behindName?_eq_some_iff.mp hrest
  obtain ⟨hgap, hgap'⟩ := List.forall_mem_append.mp hgaps
  have hfeed := Text.feed_not_mem_of_sameLetters hname hword
  simp only [List.mem_append, List.mem_cons, not_or]
  exact ⟨hfeed, by decide, ⟨fun hmem => absurd (hgap _ hmem) (by decide),
    fun hmem => absurd (hrun _ hmem) (by decide)⟩, fun hmem => absurd (hgap' _ hmem) (by decide)⟩

/-- On a line, the pattern of an entry allows the whole line if that has a run, and nothing else. -/
theorem mem_ways_entry_iff
    {previous : Option Char}
    (hprevious : Text.StartsLine previous)
    {line behind : List Char}
    (hline : '\n' ∉ line)
    (hbehind : Text.EndsLine behind)
    {x : Text.Stretch} :
    x ∈ (entry name).ways { previous := previous, rest := line ++ behind } ↔
      ∃ run, entryRun? name line = some run ∧ x = { text := line, groups := [run] } := by
  rw [Text.Pattern.mem_ways_iff]
  constructor
  · rintro ⟨behind', hrest, hallows⟩
    obtain ⟨-, hend, run, hrun, hgroups⟩ := allows_entry_iff_entryRun?.mp hallows
    obtain ⟨text, groups⟩ := x
    obtain rfl : line = text :=
      Text.Pattern.line_unique hline (not_mem_of_entryRun? hname hrun) hbehind hend hrest
    exact ⟨run, hrun, congrArg (Text.Stretch.mk line) hgroups⟩
  · rintro ⟨run, hrun, rfl⟩
    exact ⟨behind, rfl, allows_entry_iff_entryRun?.mpr ⟨hprevious, hbehind, run, hrun, rfl⟩⟩

/-- The search for an attribute goes through whole lines and finds those that have a run. -/
theorem readsLines_entry :
    (entry name).ReadsLines fun line =>
      (entryRun? name line).map fun run => { text := line, groups := [run] } := by
  refine ⟨?inside, ?whole, ?text, ?nil⟩
  case inside =>
    intro c rest hc
    refine List.eq_nil_iff_forall_not_mem.mpr fun x hx => ?_
    obtain ⟨behind, -, hallows⟩ := Text.Pattern.mem_ways_iff.mp hx
    rcases (allows_entry_iff_entryRun?.mp hallows).1 with hnone | hfeed
    · cases hnone
    · exact hc (Option.some.inj hfeed)
  case whole =>
    intro previous line behind hprevious hline hbehind
    have hways := @mem_ways_entry_iff name hname previous hprevious line behind hline hbehind
    cases hrun : entryRun? name line with
    | none =>
        have hnil : (entry name).ways { previous := previous, rest := line ++ behind } = [] := by
          refine List.eq_nil_iff_forall_not_mem.mpr fun x hx => ?_
          obtain ⟨run, hrun', -⟩ := hways.mp hx
          rw [hrun'] at hrun
          cases hrun
        rw [hnil]
        rfl
    | some run =>
        have hmem := hways.mpr ⟨run, hrun, rfl⟩
        -- the preferred way is the only one, because a line has one run
        cases hlist : (entry name).ways { previous := previous, rest := line ++ behind } with
        | nil =>
            rw [hlist] at hmem
            cases hmem
        | cons x rest =>
            obtain ⟨run', hrun', rfl⟩ := hways.mp (hlist ▸ List.mem_cons_self)
            obtain rfl : run = run' := Option.some.inj (hrun.symm.trans hrun')
            rfl
  case text =>
    intro line x hx
    obtain ⟨run, -, rfl⟩ := Option.map_eq_some_iff.mp hx
    rfl
  case nil => cases name <;> rfl

/-- The values of an attribute are the runs of the lines. -/
theorem values_eq_entryRuns
    (text : List Char) :
    values name text = (text.splitOn '\n').filterMap (entryRun? name) := by
  rw [values, (readsLines_entry hname).findAll]
  induction text.splitOn '\n' with
  | nil => rfl
  | cons line rest ih =>
      rw [List.filterMap_cons, List.filterMap_cons]
      cases entryRun? name line with
      | none => exact ih
      | some run => exact congrArg (run :: ·) ih

end SingleLineName

end Directory
end AccessAudit
