import AccessAudit.Proofs.Text.Split
import AccessAudit.Text.Pattern
import Mathlib.Data.List.Forall2

/-!
# What a pattern allows

The ways in which a pattern takes characters are listed in an order of preference.  Which stretches occur in
this list is told without the list: by how a stretch is put together of stretches that the parts of the
pattern allow.

Where a pattern only allows whole lines, the search for it reads a text line by line.
-/

namespace AccessAudit
namespace Text

/-- What stands before the start of a line. -/
def StartsLine (previous : Option Char) : Prop :=
  previous = none ∨ previous = some '\n'

/-- What stands behind the end of a line. -/
def EndsLine (behind : List Char) : Prop :=
  behind = [] ∨ ∃ rest, behind = '\n' :: rest

/-- Between a character and the text `behind`, a pattern allows a stretch. -/
def Pattern.Allows (pattern : Pattern) (previous : Option Char) (x : Stretch) (behind : List Char) : Prop :=
  x ∈ pattern.ways { previous := previous, rest := x.text ++ behind }

namespace Pattern

section Allows

variable {previous : Option Char} {x : Stretch} {behind : List Char}

/-- The beginnings that are of a class are those whose characters are. -/
theorem mem_runs_iff
    {allowed : Char → Bool}
    {run text : List Char} :
    run ∈ runs allowed text ↔ run <+: text ∧ ∀ c ∈ run, allowed c = true := by
  induction text generalizing run with
  | nil =>
      simp only [runs, List.mem_singleton, List.prefix_nil]
      exact ⟨fun h => ⟨h, h ▸ nofun⟩, And.left⟩
  | cons c rest ih =>
      cases run with
      | nil =>
          have hnil : [] ∈ runs allowed (c :: rest) := by
            rw [runs]
            split <;> simp
          exact iff_of_true hnil ⟨List.nil_prefix, nofun⟩
      | cons d run =>
          rw [runs, List.cons_prefix_cons, List.forall_mem_cons]
          split
          · next hc =>
              simp only [List.mem_append, List.mem_map, List.cons.injEq, List.mem_singleton, reduceCtorEq,
                or_false, ih]
              constructor
              · rintro ⟨run', ⟨hbegins, hrun⟩, rfl, rfl⟩
                exact ⟨⟨rfl, hbegins⟩, hc, hrun⟩
              · rintro ⟨⟨rfl, hbegins⟩, -, hrun⟩
                exact ⟨run, ⟨hbegins, hrun⟩, rfl, rfl⟩
          · next hc =>
              refine iff_of_false (by simp) ?_
              rintro ⟨⟨rfl, -⟩, hd, -⟩
              exact hc hd

theorem allows_lineStart_iff :
    lineStart.Allows previous x behind ↔ x = { text := [] } ∧ StartsLine previous := by
  have hstart : previous.all (· = '\n') = true ↔ StartsLine previous := by
    cases previous <;> simp [StartsLine]
  simp only [Allows, ways, hstart]
  split <;> simp_all

theorem allows_lineEnd_iff :
    lineEnd.Allows previous x behind ↔ x = { text := [] } ∧ EndsLine behind := by
  have hend : behind.head?.all (· = '\n') = true ↔ EndsLine behind := by
    cases behind <;> simp [EndsLine]
  rw [← hend]
  simp only [Allows, ways]
  constructor
  · intro h
    split at h
    · next hend =>
        obtain rfl := List.mem_singleton.mp h
        exact ⟨rfl, hend⟩
    · cases h
  · rintro ⟨rfl, hend⟩
    rw [List.nil_append, if_pos hend]
    exact List.mem_singleton_self _

theorem allows_one_iff
    {allowed : Char → Bool} :
    (one allowed).Allows previous x behind ↔ ∃ c, allowed c = true ∧ x = { text := [c] } := by
  simp only [Allows, ways]
  constructor
  · intro h
    split at h
    · cases h
    · next c rest hrest =>
        split at h
        · next hc => exact ⟨c, hc, List.mem_singleton.mp h⟩
        · cases h
  · rintro ⟨c, hc, rfl⟩
    simp [hc]

theorem allows_many_iff
    {allowed : Char → Bool} :
    (many allowed).Allows previous x behind ↔ x.groups = [] ∧ ∀ c ∈ x.text, allowed c = true := by
  simp only [Allows, ways, List.mem_map, mem_runs_iff]
  constructor
  · rintro ⟨run, ⟨-, hrun⟩, rfl⟩
    exact ⟨rfl, hrun⟩
  · obtain ⟨text, groups⟩ := x
    rintro ⟨rfl, htext⟩
    exact ⟨text, ⟨List.prefix_append text behind, htext⟩, rfl⟩

theorem allows_group_iff
    {inner : Pattern} :
    inner.group.Allows previous x behind ↔
      ∃ y, inner.Allows previous y behind ∧ x = { y with groups := y.text :: y.groups } := by
  simp only [Allows, ways, List.mem_map]
  constructor
  · rintro ⟨y, hy, rfl⟩
    exact ⟨y, hy, rfl⟩
  · rintro ⟨y, hy, rfl⟩
    exact ⟨y, hy, rfl⟩

/-- A stretch that a pattern allows at a place begins what stands there. -/
theorem text_isPrefix_of_mem_ways
    {pattern : Pattern}
    {place : Place}
    (h : x ∈ pattern.ways place) :
    x.text <+: place.rest := by
  induction pattern generalizing place x with
  | lineStart =>
      rw [ways] at h
      split at h
      · rw [List.mem_singleton.mp h]
        exact List.nil_prefix
      · cases h
  | lineEnd =>
      rw [ways] at h
      split at h
      · rw [List.mem_singleton.mp h]
        exact List.nil_prefix
      · cases h
  | one allowed =>
      rw [ways] at h
      split at h
      · cases h
      · next c rest hrest =>
          split at h
          · rw [List.mem_singleton.mp h, hrest]
            exact ⟨rest, rfl⟩
          · cases h
  | many allowed =>
      obtain ⟨run, hrun, rfl⟩ := List.mem_map.mp h
      exact (mem_runs_iff.mp hrun).1
  | inOrder first second ihfirst ihsecond =>
      obtain ⟨y, hy, hx⟩ := List.mem_flatMap.mp h
      obtain ⟨z, hz, rfl⟩ := List.mem_map.mp hx
      obtain ⟨rest, hrest⟩ := ihfirst hy
      have hbegins := ihsecond hz
      rw [Place.behind, ← hrest, List.drop_left] at hbegins
      rw [← hrest]
      exact (List.prefix_append_right_inj y.text).mpr hbegins
  | group inner ih =>
      obtain ⟨y, hy, rfl⟩ := List.mem_map.mp h
      exact ih (x := y) hy

theorem behind_append
    (previous : Option Char)
    (text rest : List Char) :
    Place.behind { previous := previous, rest := text ++ rest } text =
      { previous := text.getLast?.or previous, rest := rest } := by
  rw [Place.behind, List.drop_left]

theorem allows_inOrder_iff
    {first second : Pattern} :
    (inOrder first second).Allows previous x behind ↔
      ∃ y z, first.Allows previous y (z.text ++ behind) ∧
        second.Allows (y.text.getLast?.or previous) z behind ∧ x = y.append z := by
  simp only [Allows, ways, List.mem_flatMap, List.mem_map]
  constructor
  · rintro ⟨y, hy, z, hz, rfl⟩
    simp only [Stretch.append, List.append_assoc, behind_append] at hy hz
    exact ⟨y, z, hy, hz, rfl⟩
  · rintro ⟨y, z, hy, hz, rfl⟩
    simp only [Stretch.append, List.append_assoc]
    exact ⟨y, hy, z, by rwa [behind_append], rfl⟩

theorem allows_atLeastOne_iff
    {allowed : Char → Bool} :
    (atLeastOne allowed).Allows previous x behind ↔
      x.groups = [] ∧ x.text ≠ [] ∧ ∀ c ∈ x.text, allowed c = true := by
  simp only [atLeastOne, allows_inOrder_iff, allows_one_iff, allows_many_iff]
  constructor
  · rintro ⟨-, z, ⟨c, hc, rfl⟩, ⟨hgroups, hz⟩, rfl⟩
    exact ⟨hgroups, List.cons_ne_nil c z.text, List.forall_mem_cons.mpr ⟨hc, hz⟩⟩
  · obtain ⟨text, groups⟩ := x
    rintro ⟨rfl, hne, htext⟩
    obtain ⟨c, rest, rfl⟩ := List.exists_cons_of_ne_nil hne
    obtain ⟨hc, hrest⟩ := List.forall_mem_cons.mp htext
    exact ⟨_, ⟨rest, []⟩, ⟨c, hc, rfl⟩, ⟨rfl, hrest⟩, rfl⟩

theorem getLast?_cons_or
    (c : Char)
    (text : List Char)
    (previous : Option Char) :
    (c :: text).getLast?.or previous = text.getLast?.or (some c) := by
  cases text with
  | nil => rfl
  | cons d rest => simp [List.getLast?_cons]

/-- A word is allowed character by character, before what the rest of the pattern allows. -/
theorem allows_word_iff
    {same : Char → Char → Bool}
    {next : Pattern}
    {name : List Char} :
    (word same next name).Allows previous x behind ↔
      ∃ text y, List.Forall₂ (fun c d => same c d = true) name text ∧
        next.Allows (text.getLast?.or previous) y behind ∧ x = { y with text := text ++ y.text } := by
  induction name generalizing previous x with
  | nil =>
      simp only [word, List.forall₂_nil_left_iff]
      constructor
      · intro h
        exact ⟨[], x, rfl, h, rfl⟩
      · rintro ⟨text, y, rfl, hy, rfl⟩
        exact hy
  | cons c rest ih =>
      rw [word, allows_inOrder_iff]
      simp only [allows_one_iff, ih, List.forall₂_cons_left_iff]
      constructor
      · rintro ⟨-, -, ⟨d, hd, rfl⟩, ⟨text, y, htext, hy, rfl⟩, rfl⟩
        exact ⟨d :: text, y, ⟨d, text, hd, htext, rfl⟩, getLast?_cons_or d text previous ▸ hy, rfl⟩
      · rintro ⟨-, y, ⟨d, text, hd, htext, rfl⟩, hy, rfl⟩
        rw [getLast?_cons_or] at hy
        exact ⟨_, _, ⟨d, hd, rfl⟩, ⟨text, y, htext, hy, rfl⟩, rfl⟩

/-- The stretches that are allowed at a place are those that are allowed before what is left there. -/
theorem mem_ways_iff
    {pattern : Pattern}
    {rest : List Char} :
    x ∈ pattern.ways { previous := previous, rest := rest } ↔
      ∃ behind, rest = x.text ++ behind ∧ pattern.Allows previous x behind := by
  constructor
  · intro h
    obtain ⟨behind, rfl⟩ := text_isPrefix_of_mem_ways h
    exact ⟨behind, rfl, h⟩
  · rintro ⟨behind, rfl, h⟩
    exact h

end Allows

/-! ### Line by line -/

/-- What holds of lines, and of a line before a text of which it holds, holds of every text. -/
theorem lines_induction
    {P : List Char → Prop}
    (hlast : ∀ line, '\n' ∉ line → P line)
    (hmore : ∀ line rest, '\n' ∉ line → P rest → P (line ++ '\n' :: rest))
    (text : List Char) :
    P text := by
  induction hlength : text.length using Nat.strongRecOn generalizing text with
  | ind n ih =>
      by_cases hfeed : '\n' ∈ text
      · obtain ⟨line, rest, rfl, hline⟩ := List.eq_append_cons_of_mem hfeed
        rw [List.length_append, List.length_cons] at hlength
        exact hmore line rest hline (ih rest.length (by omega) rest rfl)
      · exact hlast text hfeed

/-- A text starts with one line only. -/
theorem line_unique
    {line line' behind behind' : List Char}
    (hline : '\n' ∉ line)
    (hline' : '\n' ∉ line')
    (hbehind : EndsLine behind)
    (hbehind' : EndsLine behind')
    (h : line ++ behind = line' ++ behind') :
    line = line' := by
  have hfirst : ∀ {first rest : List Char}, '\n' ∉ first → EndsLine rest →
      (first ++ rest).takeWhile (· ≠ '\n') = first := by
    intro first rest hfirst hrest
    rw [List.takeWhile_append_of_pos fun c hc => decide_eq_true (ne_of_mem_of_not_mem hc hfirst)]
    rcases hrest with rfl | ⟨rest, rfl⟩ <;> simp
  rw [← hfirst hline hbehind, h, hfirst hline' hbehind']

/-- A pattern that allows nothing but whole lines, and on each of them what `read` tells. -/
structure ReadsLines (pattern : Pattern) (read : List Char → Option Stretch) : Prop where
  inside : ∀ c rest, c ≠ '\n' → pattern.ways { previous := some c, rest := rest } = []
  whole : ∀ previous line behind, StartsLine previous → '\n' ∉ line → EndsLine behind →
    (pattern.ways { previous := previous, rest := line ++ behind }).head? = read line
  text : ∀ line x, read line = some x → x.text = line
  nil : read [] = none

section ReadsLines

variable {pattern : Pattern} {read : List Char → Option Stretch}

/-- Inside a line nothing is found, whether its characters are skipped or looked at. -/
theorem ReadsLines.findFrom_inside
    (h : pattern.ReadsLines read)
    {skipped : Nat}
    {c : Char}
    (hc : c ≠ '\n')
    {text : List Char}
    (htext : '\n' ∉ text)
    (hskipped : skipped ≤ text.length)
    {behind : List Char}
    (hbehind : EndsLine behind) :
    pattern.findFrom skipped (some c) (text ++ behind) = pattern.findFrom 0 (some '\n') behind.tail := by
  induction text generalizing skipped c with
  | nil =>
      obtain rfl := Nat.le_zero.mp hskipped
      rcases hbehind with rfl | ⟨rest, rfl⟩
      · rfl
      · simp [findFrom, h.inside c _ hc]
  | cons d rest ih =>
      obtain ⟨hd, hrest⟩ := List.ne_and_not_mem_of_not_mem_cons htext
      cases skipped with
      | zero =>
          rw [List.cons_append, findFrom, h.inside c _ hc]
          exact ih hd.symm hrest (Nat.zero_le _)
      | succ n =>
          rw [List.cons_append, findFrom]
          exact ih hd.symm hrest (Nat.le_of_succ_le_succ hskipped)

/-- From the start of a line on, what is found first is what is read on the line. -/
theorem ReadsLines.findFrom_line
    (h : pattern.ReadsLines read)
    {previous : Option Char}
    (hprevious : StartsLine previous)
    {line : List Char}
    (hline : '\n' ∉ line)
    {behind : List Char}
    (hbehind : EndsLine behind) :
    pattern.findFrom 0 previous (line ++ behind) =
      (read line).toList ++ pattern.findFrom 0 (some '\n') behind.tail := by
  have hwhole := h.whole previous line behind hprevious hline hbehind
  cases line with
  | nil =>
      rw [h.nil] at hwhole ⊢
      rcases hbehind with rfl | ⟨rest, rfl⟩
      · rfl
      · rw [List.nil_append] at hwhole ⊢
        rw [findFrom, hwhole]
        rfl
  | cons c rest =>
      obtain ⟨hc, hrest⟩ := List.ne_and_not_mem_of_not_mem_cons hline
      rw [List.cons_append] at hwhole ⊢
      rw [findFrom, hwhole]
      cases hread : read (c :: rest) with
      | none => exact h.findFrom_inside hc.symm hrest (Nat.zero_le _) hbehind
      | some x =>
          -- the whole line was found, so what is skipped ends where the line does
          have hlength : x.text.length - 1 = rest.length := by
            rw [h.text _ x hread, List.length_cons, Nat.add_sub_cancel]
          exact congrArg (x :: ·) (h.findFrom_inside hc.symm hrest (Nat.le_of_eq hlength) hbehind)

/-- A text is read line by line. -/
theorem ReadsLines.findAll
    (h : pattern.ReadsLines read)
    (text : List Char) :
    pattern.findAll text = (text.splitOn '\n').filterMap read := by
  have hfrom : ∀ previous, StartsLine previous →
      pattern.findFrom 0 previous text = (text.splitOn '\n').filterMap read := by
    induction text using lines_induction with
    | hlast line hline =>
        intro previous hprevious
        have hfirst := h.findFrom_line hprevious hline (.inl rfl)
        rw [List.append_nil] at hfirst
        rw [hfirst, List.splitOn_eq_singleton hline, List.filterMap_cons, List.filterMap_nil]
        cases read line <;> rfl
    | hmore line rest hline ih =>
        intro previous hprevious
        rw [h.findFrom_line hprevious hline (.inr ⟨rest, rfl⟩), List.tail_cons, ih (some '\n') (.inr rfl),
          List.splitOn_append_cons_self_of_not_mem hline, List.filterMap_cons]
        cases read line <;> rfl
  exact hfrom none (.inl rfl)

/-- What is found lies within a line. -/
theorem ReadsLines.not_mem_text
    (h : pattern.ReadsLines read)
    {text : List Char}
    {x : Stretch}
    (hx : x ∈ pattern.findAll text) :
    '\n' ∉ x.text := by
  rw [h.findAll, List.mem_filterMap] at hx
  obtain ⟨line, hline, hread⟩ := hx
  rw [h.text line x hread]
  exact not_mem_of_mem_splitOn hline

end ReadsLines

end Pattern
end Text
end AccessAudit
