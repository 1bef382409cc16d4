import AccessAudit.Proofs.Table.Rendering

/-!
# Tables as Markdown

Read as Markdown, a table has one line for its headers, a rule, and one line for each row, and a line is cut into
its cells at the bars that no backslash escapes.  A table that is rendered is read back as its rows if and only
if its headers and cells hold neither an end of a line nor such a bar.
-/

namespace AccessAudit

/-! ### Reading -/

namespace Markdown

/-- A character that ends a line. -/
def endsLine (c : Char) : Bool :=
  c = '\n' || c = '\r'

/-- The lines of a text. -/
def linesOf (text : String) : List (List Char) :=
  text.toList.splitOnP endsLine

/-- The parts into which bars cut a line.  A bar behind a backslash is no bar, unless that backslash stands
behind another; `escaped` tells whether the first character is behind one. -/
def partsOf (escaped : Bool) : List Char → List (List Char)
  | [] => [[]]
  | c :: rest =>
      if c = '|' ∧ escaped = false then [] :: partsOf false rest
      else (partsOf (c = '\\' && !escaped) rest).modifyHead (c :: ·)

/-- The number of bars that cut a line. -/
def bars (escaped : Bool) : List Char → Nat
  | [] => 0
  | c :: rest => (if c = '|' ∧ escaped = false then 1 else 0) + bars (c = '\\' && !escaped) rest

/-- A text that neither ends a line nor cuts one. -/
structure IsPlain (text : String) : Prop where
  noEnd : ∀ c ∈ text.toList, endsLine c = false
  noBar : bars false text.toList = 0

/-- A line between bars that is cut into the cells of a row, but for the blanks around them. -/
def ReadsAs (row : List String) (line : List Char) : Prop :=
  ∃ parts,
    partsOf false line = [] :: (parts ++ [[]]) ∧
    List.Forall₂ (fun cell part => Table.withoutBlanks part = Table.withoutBlanks cell.toList) row parts

/-- A line between bars that is cut into dashes for some columns. -/
def IsRule (columns : Nat) (line : List Char) : Prop :=
  ∃ parts,
    partsOf false line = [] :: (parts ++ [[]]) ∧ parts.length = columns ∧
    ∀ part ∈ parts, part ≠ [] ∧ ∀ c ∈ part, c = '-'

/-! ### Bars -/

theorem length_partsOf
    (escaped : Bool)
    (s : List Char) :
    (partsOf escaped s).length = bars escaped s + 1 := by
  induction s generalizing escaped with
  | nil => rfl
  | cons c rest ih =>
      rw [partsOf, bars]
      split
      · next hbar =>
          obtain ⟨rfl, rfl⟩ := hbar
          rw [List.length_cons, ih]
          simp [Nat.add_comm]
      · rw [List.length_modifyHead, ih, Nat.zero_add]

/-- A character after which nothing is escaped, and which is no bar. -/
def Closes (c : Char) : Prop :=
  c ≠ '|' ∧ c ≠ '\\'

theorem bars_append_closes
    {c : Char}
    (h : Closes c)
    (escaped : Bool)
    (s more : List Char) :
    bars escaped (s ++ c :: more) = bars escaped s + bars false more := by
  induction s generalizing escaped with
  | nil => simp [bars, h.1, h.2]
  | cons d rest ih => rw [List.cons_append, bars, bars, ih, Nat.add_assoc]

theorem partsOf_append_closes
    {c : Char}
    (h : Closes c)
    {escaped : Bool}
    {s : List Char}
    (hbars : bars escaped s = 0)
    (more : List Char) :
    partsOf escaped (s ++ c :: '|' :: more) = (s ++ [c]) :: partsOf false more := by
  induction s generalizing escaped with
  | nil => simp [partsOf, h.1, h.2]
  | cons d rest ih =>
      rw [bars] at hbars
      rw [List.cons_append, partsOf]
      split
      · next hbar =>
          rw [if_pos hbar] at hbars
          omega
      · rw [ih (by omega)]
        rfl

theorem bars_replicate
    {c : Char}
    (h : Closes c)
    (escaped : Bool)
    (n : Nat) :
    bars escaped (List.replicate n c) = 0 := by
  induction n generalizing escaped with
  | zero => rfl
  | succ n ih => simpa [List.replicate_succ, bars, h.1, h.2] using ih false

theorem closes_blank : Closes ' ' :=
  ⟨by decide, by decide⟩

theorem closes_dash : Closes '-' :=
  ⟨by decide, by decide⟩

/-- Blanks around a text do not change its bars. -/
theorem bars_filled
    (before after : Nat)
    (s : List Char) :
    bars false (List.replicate before ' ' ++ s ++ List.replicate after ' ') = bars false s := by
  have hafter : bars false (s ++ List.replicate after ' ') = bars false s := by
    cases after with
    | zero => rw [List.replicate_zero, List.append_nil]
    | succ n => rw [List.replicate_succ, bars_append_closes closes_blank, bars_replicate closes_blank,
        Nat.add_zero]
  rw [List.append_assoc]
  cases before with
  | zero => exact hafter
  | succ n =>
      rw [List.replicate_succ', List.append_assoc, List.singleton_append, bars_append_closes closes_blank,
        bars_replicate closes_blank, Nat.zero_add, hafter]

/-- A part that ends in a character after which nothing is escaped. -/
def IsClosed (part : List Char) : Prop :=
  ∃ s c, part = s ++ [c] ∧ Closes c

/-- The bars of a line: those between its parts and around them, and those within. -/
theorem bars_barred
    {parts : List (List Char)}
    (hne : parts ≠ [])
    (h : ∀ part ∈ parts, IsClosed part) :
    bars false (Table.barred parts) = (parts.map (bars false)).sum + parts.length + 1 := by
  rw [Table.barred_eq hne]
  clear hne
  induction parts with
  | nil => rfl
  | cons part rest ih =>
      obtain ⟨⟨s, c, rfl, hc⟩, hrest⟩ := List.forall_mem_cons.mp h
      have hpart : bars false (s ++ [c]) = bars false s := by
        rw [bars_append_closes hc, bars, Nat.add_zero]
      rw [List.flatMap_cons, List.append_assoc, List.cons_append, List.append_assoc, List.singleton_append, bars,
        if_pos ⟨rfl, rfl⟩]
      change 1 + bars false (s ++ c :: _) = _
      rw [bars_append_closes hc, ih hrest, List.map_cons, List.sum_cons, hpart, List.length_cons]
      omega

/-- A line whose parts hold no bars is cut into its parts. -/
theorem partsOf_barred
    {parts : List (List Char)}
    (hne : parts ≠ [])
    (h : ∀ part ∈ parts, IsClosed part ∧ bars false part = 0) :
    partsOf false (Table.barred parts) = [] :: (parts ++ [[]]) := by
  rw [Table.barred_eq hne]
  clear hne
  induction parts with
  | nil => rfl
  | cons part rest ih =>
      obtain ⟨⟨⟨s, c, rfl, hc⟩, hbars⟩, hrest⟩ := List.forall_mem_cons.mp h
      rw [bars_append_closes hc, bars, Nat.add_zero] at hbars
      -- whatever follows, a part or the end, begins with a bar
      obtain ⟨next, hnext⟩ : ∃ next, rest.flatMap ('|' :: ·) ++ ['|'] = '|' :: next := by
        cases rest <;> simp
      have hmore := ih hrest
      rw [hnext, partsOf, if_pos ⟨rfl, rfl⟩] at hmore
      have hline : '|' :: (s ++ [c]) ++ '|' :: next = '|' :: (s ++ c :: '|' :: next) := by simp
      rw [List.flatMap_cons, List.append_assoc, hnext, hline, partsOf, if_pos ⟨rfl, rfl⟩,
        partsOf_append_closes hc hbars, (List.cons.inj hmore).2]
      rfl

/-! ### Lines -/

theorem length_splitOnP
    {α : Type}
    (p : α → Bool)
    (s : List α) :
    (s.splitOnP p).length = s.countP p + 1 := by
  induction s with
  | nil => rfl
  | cons c rest ih =>
      rw [List.splitOnP_cons_eq_if_modifyHead, List.countP_cons]
      split
      · rw [List.length_cons, ih]
      · rw [List.length_modifyHead, ih]

section Counting

variable {α β : Type} {f : α → List β} {xs : List α}

theorem length_le_length_flatMap
    (h : ∀ x ∈ xs, 1 ≤ (f x).length) :
    xs.length ≤ (xs.flatMap f).length := by
  induction xs with
  | nil => exact Nat.zero_le _
  | cons x rest ih =>
      obtain ⟨hx, hrest⟩ := List.forall_mem_cons.mp h
      have hmore := ih hrest
      rw [List.flatMap_cons, List.length_append, List.length_cons]
      omega

/-- Lists that are not empty have together as many members as there are lists only if each has one. -/
theorem length_eq_one_of_flatMap
    (h : ∀ x ∈ xs, 1 ≤ (f x).length)
    (hlength : (xs.flatMap f).length = xs.length) :
    ∀ x ∈ xs, (f x).length = 1 := by
  induction xs with
  | nil => nofun
  | cons x rest ih =>
      obtain ⟨hx, hrest⟩ := List.forall_mem_cons.mp h
      have hmore := length_le_length_flatMap hrest
      rw [List.flatMap_cons, List.length_append, List.length_cons] at hlength
      exact List.forall_mem_cons.mpr ⟨by omega, ih hrest (by omega)⟩

end Counting

/-- The lines of lines that are joined are the lines of each of them. -/
theorem splitOnP_intercalate
    {lines : List (List Char)}
    (hne : lines ≠ []) :
    (List.intercalate ['\n'] lines).splitOnP endsLine = lines.flatMap (·.splitOnP endsLine) := by
  obtain ⟨line, rest, rfl⟩ := List.exists_cons_of_ne_nil hne
  clear hne
  induction rest generalizing line with
  | nil => simp
  | cons next rest ih =>
      rw [List.intercalate_cons_cons, List.append_assoc, List.singleton_append,
        List.splitOnP_append_cons _ _ (by decide), ih next, List.flatMap_cons (x := line)]

end Markdown

namespace Table

open Markdown

variable {t : Table} {row : List String} {measure : Text.Measure}

/-- A table that is read back as its rows: a line for its headers, a rule, and one line for each row. -/
def IsMarkdown (t : Table) (measure : Text.Measure := Text.displayWidth) : Prop :=
  ∃ header dashes body,
    linesOf (t.render measure) = header :: dashes :: body ∧ ReadsAs t.headers header ∧
    IsRule t.headers.length dashes ∧ List.Forall₂ ReadsAs t.rows body

/-- The lines that are read from the lines of a row. -/
def readLines (t : Table) (row : List String) (measure : Text.Measure) : List (List Char) :=
  (rowLines (t.layout measure) row measure).flatMap (·.splitOnP endsLine)

theorem linesOf_render
    (t : Table)
    (measure : Text.Measure) :
    linesOf (t.render measure) =
      t.readLines t.headers measure ++ (rule (t.layout measure)).splitOnP endsLine ++
        t.rows.flatMap fun row => t.readLines row measure := by
  have hne : t.lines measure ≠ [] := by simp [lines]
  rw [linesOf, render, String.toList_ofList, splitOnP_intercalate hne, lines, List.flatMap_append,
    List.flatMap_cons, List.flatMap_assoc, List.append_assoc]
  rfl

/-! ### Parts -/

theorem exists_part
    (t : Table)
    (row : List String)
    (measure : Text.Measure)
    {i : Nat}
    (h : i < t.columnCount) :
    ∃ before after,
      List.replicate before ' ' ++ cellAt row i ++ List.replicate (after + 1) ' ' ∈ t.rowParts row measure := by
  obtain ⟨before, after, hpart⟩ := part_eq measure (t.columnAlign i) (t.columnWidth i measure) (cellAt row i)
  refine ⟨before, after, ?_⟩
  rw [← hpart]
  exact List.mem_map_of_mem (List.mem_range.mpr h)

theorem exists_of_mem_rowParts
    {part : List Char}
    (h : part ∈ t.rowParts row measure) :
    ∃ i < t.columnCount, ∃ before after,
      part = List.replicate before ' ' ++ cellAt row i ++ List.replicate (after + 1) ' ' := by
  obtain ⟨i, hi, rfl⟩ := List.mem_map.mp h
  exact ⟨i, List.mem_range.mp hi, part_eq _ _ _ _⟩

theorem rowParts_ne_nil
    (h : 0 < t.columnCount) :
    t.rowParts row measure ≠ [] :=
  List.ne_nil_of_length_pos (by rwa [rowParts, List.length_map, List.length_range])

theorem mem_barred_iff
    {parts : List (List Char)}
    (hne : parts ≠ [])
    {c : Char} :
    c ∈ barred parts ↔ c = '|' ∨ ∃ part ∈ parts, c ∈ part := by
  rw [barred_eq hne]
  simp only [List.mem_append, List.mem_flatMap, List.mem_cons, List.not_mem_nil, or_false]
  constructor
  · rintro (⟨part, hpart, rfl | hc⟩ | rfl)
    · exact .inl rfl
    · exact .inr ⟨part, hpart, hc⟩
    · exact .inl rfl
  · rintro (rfl | ⟨part, hpart, hc⟩)
    · exact .inr rfl
    · exact .inl ⟨part, hpart, .inr hc⟩

/-- The line of a row holds an end of a line if and only if one of its cells does. -/
theorem noEnd_barred_rowParts
    (measure : Text.Measure)
    (hcolumns : 0 < t.columnCount) :
    (∀ c ∈ barred (t.rowParts row measure), endsLine c = false) ↔
      ∀ i < t.columnCount, ∀ c ∈ cellAt row i, endsLine c = false := by
  simp only [mem_barred_iff (rowParts_ne_nil hcolumns)]
  constructor
  · intro h i hi c hc
    obtain ⟨before, after, hpart⟩ := exists_part t row measure hi
    exact h c (.inr ⟨_, hpart, List.mem_append_left _ (List.mem_append_right _ hc)⟩)
  · rintro h c (rfl | ⟨part, hpart, hc⟩)
    · rfl
    · obtain ⟨i, hi, before, after, rfl⟩ := exists_of_mem_rowParts hpart
      simp only [List.mem_append, List.mem_replicate] at hc
      rcases hc with (⟨-, rfl⟩ | hc) | ⟨-, rfl⟩
      · rfl
      · exact h i hi c hc
      · rfl

/-- The cells of a row that is not too long are its texts and blanks. -/
theorem forall_cellAt_iff
    {P : List Char → Prop}
    (hblank : P [])
    (hrow : row.length ≤ t.columnCount) :
    (∀ i < t.columnCount, P (cellAt row i)) ↔ ∀ cell ∈ row, P cell.toList := by
  constructor
  · intro h cell hcell
    obtain ⟨i, hi, rfl⟩ := List.getElem_of_mem hcell
    have hP := h i (hi.trans_le hrow)
    rwa [cellAt, List.getElem?_eq_getElem hi] at hP
  · intro h i _
    unfold cellAt
    cases hcell : row[i]? with
    | none => exact hblank
    | some cell => exact h cell (List.mem_of_getElem? hcell)

/-! ### Lines of a row -/

/-- A row has as many lines as its highest cell. -/
theorem length_rowLines_le_iff
    {bound : Nat} :
    (rowLines (t.layout measure) row measure).length ≤ bound ↔
      ∀ lines ∈ rowCells t.columnCount row, lines.length ≤ bound := by
  have hlayout : (t.layout measure).length = t.columnCount := by rw [layout, List.length_map, List.length_range]
  rw [rowLines, hlayout]
  dsimp only
  rw [List.length_map, List.length_range, foldl_max_le_iff List.length]
  exact and_iff_right (Nat.zero_le bound)

theorem length_cell_pos
    {columns : Nat}
    {lines : List (List Char)}
    (h : lines ∈ rowCells columns row) :
    0 < lines.length := by
  obtain ⟨i, -, rfl⟩ := List.mem_map.mp h
  split
  · exact List.length_pos_of_ne_nil (List.splitOn_ne_nil _ _)
  · exact Nat.one_pos

theorem length_rowLines_pos
    (hcolumns : 0 < t.columnCount) :
    0 < (rowLines (t.layout measure) row measure).length := by
  obtain ⟨lines, hlines⟩ : ∃ lines, lines ∈ rowCells t.columnCount row := by
    refine List.exists_mem_of_length_pos ?_
    rwa [rowCells, List.length_map, List.length_range]
  exact (length_cell_pos hlines).trans_le (length_rowLines_le_iff.mp le_rfl lines hlines)

theorem length_rowLines_le_length_readLines
    (t : Table)
    (row : List String)
    (measure : Text.Measure) :
    (rowLines (t.layout measure) row measure).length ≤ (t.readLines row measure).length := by
  refine length_le_length_flatMap fun line _ => ?_
  rw [length_splitOnP]
  omega

/-- The cells of a row with one line hold no line feeds. -/
theorem feed_not_mem_of_length_rowLines
    (hrow : row.length ≤ t.columnCount)
    (h : (rowLines (t.layout measure) row measure).length ≤ 1) :
    ∀ cell ∈ row, '\n' ∉ cell.toList := by
  intro cell hcell hfeed
  obtain ⟨i, hi, rfl⟩ := List.getElem_of_mem hcell
  have hlines : cellLines row[i] ∈ rowCells t.columnCount row := by
    refine List.mem_map.mpr ⟨i, List.mem_range.mpr (hi.trans_le hrow), ?_⟩
    rw [List.getElem?_eq_getElem hi]
  have hlength := length_rowLines_le_iff.mp h _ hlines
  rw [cellLines, Text.splitAll, List.splitOn_eq_splitOnP, length_splitOnP] at hlength
  have hcount : 0 < row[i].toList.countP (· == '\n') := List.countP_pos_iff.mpr ⟨'\n', hfeed, rfl⟩
  omega

/-- A row is read from one line if and only if its cells end none. -/
theorem length_readLines_eq_one_iff
    (measure : Text.Measure)
    (hcolumns : 0 < t.columnCount)
    (hrow : row.length ≤ t.columnCount) :
    (t.readLines row measure).length = 1 ↔ ∀ cell ∈ row, ∀ c ∈ cell.toList, endsLine c = false := by
  have honeLine (hfeeds : ∀ cell ∈ row, '\n' ∉ cell.toList) :
      (t.readLines row measure).length = 1 ↔ ∀ cell ∈ row, ∀ c ∈ cell.toList, endsLine c = false := by
    rw [← forall_cellAt_iff (P := fun cell => ∀ c ∈ cell, endsLine c = false) nofun hrow,
      ← noEnd_barred_rowParts measure hcolumns, readLines, rowLines_layout hcolumns hfeeds, List.flatMap_singleton,
      length_splitOnP]
    simp [List.countP_eq_zero]
  constructor
  · intro hone
    have hlength := hone ▸ length_rowLines_le_length_readLines t row measure
    exact (honeLine (feed_not_mem_of_length_rowLines hrow hlength)).mp hone
  · intro hends
    refine (honeLine fun cell hcell hfeed => ?_).mpr hends
    cases hends cell hcell '\n' hfeed

/-! ### Tables -/

theorem length_rowParts
    (t : Table)
    (row : List String)
    (measure : Text.Measure) :
    (t.rowParts row measure).length = t.columnCount := by
  rw [rowParts, List.length_map, List.length_range]

theorem isClosed_of_mem_rowParts
    {part : List Char}
    (h : part ∈ t.rowParts row measure) :
    IsClosed part := by
  obtain ⟨i, -, rfl⟩ := List.mem_map.mp h
  exact ⟨_, ' ', rfl, closes_blank⟩

/-- The line of a row is cut into its cells if and only if none of them holds a bar. -/
theorem readsAs_barred_iff
    (hcolumns : 0 < t.columnCount)
    (hrow : row.length = t.columnCount) :
    ReadsAs row (barred (t.rowParts row measure)) ↔ ∀ cell ∈ row, bars false cell.toList = 0 := by
  have hbars : (∀ part ∈ t.rowParts row measure, bars false part = 0) ↔
      ∀ cell ∈ row, bars false cell.toList = 0 := by
    rw [← forall_cellAt_iff (P := fun cell => bars false cell = 0) rfl hrow.le]
    constructor
    · intro h i hi
      obtain ⟨before, after, hpart⟩ := exists_part t row measure hi
      rw [← bars_filled before (after + 1)]
      exact h _ hpart
    · intro h part hpart
      obtain ⟨i, hi, before, after, rfl⟩ := exists_of_mem_rowParts hpart
      rw [bars_filled]
      exact h i hi
  rw [← hbars]
  constructor
  · rintro ⟨parts, hparts, hcells⟩
    have hlength := congrArg List.length hparts
    rw [length_partsOf, bars_barred (rowParts_ne_nil hcolumns) fun part => isClosed_of_mem_rowParts,
      length_rowParts, List.length_cons, List.length_append, List.length_singleton, ← hcells.length_eq,
      hrow] at hlength
    have hsum : ((t.rowParts row measure).map (bars false)).sum = 0 := by omega
    intro part hpart
    exact List.sum_eq_zero_iff.mp hsum _ (List.mem_map_of_mem hpart)
  · intro h
    refine ⟨t.rowParts row measure, partsOf_barred (rowParts_ne_nil hcolumns) fun part hpart =>
      ⟨isClosed_of_mem_rowParts hpart, h part hpart⟩, ?_⟩
    rw [List.forall₂_iff_get]
    refine ⟨hrow.trans (length_rowParts t row measure).symm, fun i hi hi' => ?_⟩
    have hcell : cellAt row i = row[i].toList := by rw [cellAt, List.getElem?_eq_getElem hi, Option.getD_some]
    obtain ⟨before, after, hpart⟩ := part_eq measure (t.columnAlign i) (t.columnWidth i measure) (cellAt row i)
    simp only [List.get_eq_getElem, rowParts, List.getElem_map, List.getElem_range]
    rw [hpart, withoutBlanks_filled, hcell]

theorem isRule_barred
    (hcolumns : 0 < t.columnCount) :
    IsRule t.columnCount (barred (t.ruleParts measure)) := by
  have hne : t.ruleParts measure ≠ [] :=
    List.ne_nil_of_length_pos (by rwa [ruleParts, List.length_map, List.length_range])
  refine ⟨t.ruleParts measure, partsOf_barred hne fun part hpart => ?_,
    by rw [ruleParts, List.length_map, List.length_range], fun part hpart => ?_⟩
  · obtain ⟨i, -, rfl⟩ := List.mem_map.mp hpart
    exact ⟨⟨_, '-', List.replicate_succ', closes_dash⟩, bars_replicate closes_dash _ _⟩
  · obtain ⟨i, -, rfl⟩ := List.mem_map.mp hpart
    exact ⟨by simp, fun c => List.eq_of_mem_replicate⟩

theorem noEnd_rule
    (hcolumns : 0 < t.columnCount) :
    ∀ c ∈ rule (t.layout measure), endsLine c = false := by
  have hne : t.ruleParts measure ≠ [] :=
    List.ne_nil_of_length_pos (by rwa [ruleParts, List.length_map, List.length_range])
  rw [rule_layout]
  intro c hc
  rcases (mem_barred_iff hne).mp hc with rfl | ⟨part, hpart, hc⟩
  · rfl
  · obtain ⟨i, -, rfl⟩ := List.mem_map.mp hpart
    rw [List.eq_of_mem_replicate hc]
    rfl

/-- A row that ends no line is read from its line. -/
theorem readLines_eq
    (hcolumns : 0 < t.columnCount)
    (hrow : row.length ≤ t.columnCount)
    (hends : ∀ cell ∈ row, ∀ c ∈ cell.toList, endsLine c = false) :
    t.readLines row measure = [barred (t.rowParts row measure)] := by
  have hfeeds : ∀ cell ∈ row, '\n' ∉ cell.toList := fun cell hcell hfeed => by
    cases hends cell hcell '\n' hfeed
  rw [← forall_cellAt_iff (P := fun cell => ∀ c ∈ cell, endsLine c = false) nofun hrow,
    ← noEnd_barred_rowParts measure hcolumns] at hends
  rw [readLines, rowLines_layout hcolumns hfeeds, List.flatMap_singleton, List.splitOnP_eq_singleton hends]

/-- **When a table is read back as its rows.**  A table whose rows are as long as its headers is read as
Markdown if and only if its headers and cells are plain, whatever measure its columns are laid out by. -/
theorem isMarkdown_iff
    (t : Table)
    (hheaders : t.headers ≠ [])
    (hrows : ∀ row ∈ t.rows, row.length = t.headers.length) :
    t.IsMarkdown measure ↔ ∀ row ∈ t.headers :: t.rows, ∀ cell ∈ row, IsPlain cell := by
  have hcolumns : 0 < t.columnCount := columnCount_pos hheaders
  have hcount : t.columnCount = t.headers.length := by
    refine Nat.le_antisymm (columnCount_le_iff.mpr ?_) (length_le_columnCount List.mem_cons_self)
    exact List.forall_mem_cons.mpr ⟨le_rfl, fun row hrow => (hrows row hrow).le⟩
  have hlength : ∀ row ∈ t.headers :: t.rows, row.length = t.columnCount := by
    rw [hcount]
    exact List.forall_mem_cons.mpr ⟨rfl, hrows⟩
  have hrule : (rule (t.layout measure)).splitOnP endsLine = [barred (t.ruleParts measure)] := by
    rw [List.splitOnP_eq_singleton (noEnd_rule hcolumns), rule_layout]
  have hlines (hends : ∀ row ∈ t.headers :: t.rows, ∀ cell ∈ row, ∀ c ∈ cell.toList, endsLine c = false) :
      linesOf (t.render measure) =
        barred (t.rowParts t.headers measure) :: barred (t.ruleParts measure) ::
          t.rows.map fun row => barred (t.rowParts row measure) := by
    have hrow : ∀ row ∈ t.headers :: t.rows, t.readLines row measure = [barred (t.rowParts row measure)] :=
      fun row hrow => readLines_eq hcolumns (hlength row hrow).le (hends row hrow)
    rw [linesOf_render, hrow _ List.mem_cons_self, hrule, List.map_eq_flatMap,
      List.flatMap_congr fun row hmem => hrow row (List.mem_cons_of_mem _ hmem)]
    rfl
  constructor
  · rintro ⟨header, dashes, body, hread, hheader, -, hbody⟩
    have hends : ∀ row ∈ t.headers :: t.rows, ∀ cell ∈ row, ∀ c ∈ cell.toList, endsLine c = false := by
      -- there are as many lines as rows, so each row is read from one
      have htotal := congrArg List.length hread
      rw [linesOf_render, hrule, List.length_append, List.length_append, List.length_singleton, List.length_cons,
        List.length_cons, ← hbody.length_eq] at htotal
      have hrows : ((t.headers :: t.rows).flatMap fun row => t.readLines row measure).length =
          (t.headers :: t.rows).length := by
        rw [List.flatMap_cons, List.length_append, List.length_cons]
        omega
      intro row hrow
      refine (length_readLines_eq_one_iff measure hcolumns (hlength row hrow).le).mp ?_
      refine length_eq_one_of_flatMap (fun row _ => ?_) hrows row hrow
      exact (length_rowLines_pos hcolumns).trans_le (length_rowLines_le_length_readLines t row measure)
    obtain ⟨rfl, hrest⟩ := List.cons.inj ((hlines hends).symm.trans hread)
    obtain ⟨-, rfl⟩ := List.cons.inj hrest
    rw [List.forall₂_map_right_iff, List.forall₂_same] at hbody
    intro row hrow cell hcell
    refine ⟨hends row hrow cell hcell, ?_⟩
    rcases List.mem_cons.mp hrow with rfl | hmem
    · exact (readsAs_barred_iff hcolumns (hlength _ hrow)).mp hheader cell hcell
    · exact (readsAs_barred_iff hcolumns (hlength _ hrow)).mp (hbody row hmem) cell hcell
  · intro hplain
    have hreads : ∀ row ∈ t.headers :: t.rows, ReadsAs row (barred (t.rowParts row measure)) := fun row hrow =>
      (readsAs_barred_iff hcolumns (hlength row hrow)).mpr fun cell hcell => (hplain row hrow cell hcell).noBar
    refine ⟨_, _, _, hlines fun row hrow cell hcell => (hplain row hrow cell hcell).noEnd,
      hreads _ List.mem_cons_self, hcount ▸ isRule_barred hcolumns, ?_⟩
    rw [List.forall₂_map_right_iff, List.forall₂_same]
    exact fun row hrow => hreads row (List.mem_cons_of_mem _ hrow)

end Table
end AccessAudit
