import AccessAudit.Proofs.Table.Lines
import Mathlib

/-!
# Rendered tables

The text of a table is laid out in columns, and its cells can be read back from it: the rule between the
headers and the rows tells how many columns each part of a line takes, so that the bars within cells do not
matter.  This holds for any measure that the signs of a table separate.  Requests for headers that no column
has change nothing, and requests for different headers can be made in any order.
-/

namespace AccessAudit
namespace Table

/-! ### Bars -/

/-- The line of at least one part is a bar before each part and one at the end. -/
theorem barred_eq
    {parts : List (List Char)}
    (h : parts ≠ []) :
    barred parts = parts.flatMap ('|' :: ·) ++ ['|'] := by
  obtain ⟨part, rest, rfl⟩ := List.exists_cons_of_ne_nil h
  rw [barred]
  clear h
  induction rest generalizing part with
  | nil => simp
  | cons next rest ih =>
      rw [List.intercalate_cons_cons, List.flatMap_cons, List.append_assoc ('|' :: part), ← ih next]
      simp

theorem splitOn_barred
    {parts : List (List Char)}
    (hne : parts ≠ [])
    (h : ∀ part ∈ parts, '|' ∉ part) :
    (barred parts).splitOn '|' = [] :: (parts ++ [[]]) := by
  have hline : barred parts = List.intercalate ['|'] ([] :: (parts ++ [[]])) := by
    rw [barred_eq hne]
    clear h hne
    induction parts with
    | nil => rfl
    | cons part rest ih =>
        rw [List.flatMap_cons, List.append_assoc, ih]
        cases rest <;> simp [List.intercalate_cons_cons]
  rw [hline]
  refine List.splitOn_intercalate '|' ?_ (List.cons_ne_nil _ _)
  simp only [List.mem_cons, List.mem_append, List.not_mem_nil, or_false]
  rintro part (rfl | hmem | rfl)
  · exact List.not_mem_nil
  · exact h part hmem
  · exact List.not_mem_nil

theorem feed_not_mem_barred
    {parts : List (List Char)}
    (h : ∀ part ∈ parts, '\n' ∉ part) :
    '\n' ∉ barred parts := by
  by_cases hne : parts = []
  · subst hne
    decide
  · rw [barred_eq hne]
    simp only [List.mem_append, List.mem_flatMap, List.mem_cons, List.not_mem_nil, or_false]
    rintro (⟨part, hmem, hfeed | hfeed⟩ | hfeed)
    · exact absurd hfeed (by decide)
    · exact h part hmem hfeed
    · exact absurd hfeed (by decide)

/-! ### Widths -/

/-- The columns that a line of a table takes: a part and a bar for each column, and one bar more. -/
def lineWidth (t : Table) (measure : Text.Measure) : Nat :=
  ((List.range t.columnCount).map fun i => t.columnWidth i measure + 3).sum + 1

section Measured

variable {measure : Text.Measure}

theorem measure_bars
    (hmeasure : measure.Separates)
    (parts : List (List Char)) :
    measure (parts.flatMap ('|' :: ·) ++ ['|']) =
      (parts.map fun part => measure part + 1).sum + 1 := by
  induction parts with
  | nil => exact hmeasure.replicate Text.isSign_bar 1
  | cons part rest ih =>
      cases rest with
      | nil =>
          rw [List.flatMap_cons, List.flatMap_nil, List.append_nil, List.cons_append,
            hmeasure.sign_cons Text.isSign_bar, hmeasure.sign Text.isSign_bar, hmeasure.nil]
          simp only [List.map_cons, List.map_nil, List.sum_cons, List.sum_nil]
          omega
      | cons next rest =>
          have hbar : (next :: rest).flatMap ('|' :: ·) ++ ['|'] =
              '|' :: (next ++ (rest.flatMap ('|' :: ·) ++ ['|'])) := by simp
          rw [List.flatMap_cons, List.append_assoc, List.cons_append,
            hmeasure.sign_cons Text.isSign_bar, hbar, hmeasure.sign Text.isSign_bar, List.map_cons, List.sum_cons]
          rw [hbar, hmeasure.sign_cons Text.isSign_bar] at ih
          omega

theorem measure_barred
    (hmeasure : measure.Separates)
    {parts : List (List Char)}
    (h : parts ≠ []) :
    measure (barred parts) = (parts.map fun part => measure part + 1).sum + 1 := by
  rw [barred_eq h, measure_bars hmeasure]

end Measured

/-! ### Reading back -/

/-- A text without the blanks around it. -/
def withoutBlanks (s : List Char) : List Char :=
  (s.dropWhile (· = ' ')).rdropWhile (· = ' ')

/-- The cells of a line whose parts take these columns. -/
def cellsOf (measure : Text.Measure) : List Nat → List Char → List (List Char)
  | [], _ => []
  | width :: rest, line =>
      let part := measure.upToColumn width line.tail
      withoutBlanks part :: cellsOf measure rest (line.tail.drop part.length)

/-- The cells of the headers and of the rows, as the columns of the rule tell them. -/
def readBack (measure : Text.Measure) (text : String) : List (List (List Char)) :=
  match text.toList.splitOn '\n' with
  | header :: rule :: body =>
      let widths := (rule.splitOn '|').tail.dropLast.map List.length
      (header :: body).map (cellsOf measure widths)
  | _ => []

theorem withoutBlanks_filled
    (before after : Nat)
    (s : List Char) :
    withoutBlanks (List.replicate before ' ' ++ s ++ List.replicate after ' ') = withoutBlanks s := by
  have hblank : ∀ n, ∀ c ∈ List.replicate n ' ', decide (c = ' ') = true := fun n c hc =>
    decide_eq_true (List.eq_of_mem_replicate hc)
  have hend : ∀ s : List Char, (s ++ List.replicate after ' ').rdropWhile (· = ' ') =
      s.rdropWhile (· = ' ') := by
    intro s
    rw [List.rdropWhile, List.reverse_append, List.reverse_replicate,
      List.dropWhile_append_of_pos (hblank after)]
    rfl
  rw [withoutBlanks, List.append_assoc, List.dropWhile_append_of_pos (hblank before),
    List.dropWhile_append]
  split
  · next hempty =>
      rw [withoutBlanks, List.isEmpty_iff.mp hempty, ← List.append_nil (List.replicate after ' '),
        List.dropWhile_append_of_pos (hblank after)]
      rfl
  · rw [hend, withoutBlanks]

/-- A part that ends in a blank is found by its columns, whatever it holds. -/
theorem cellsOf_bars
    {measure : Text.Measure}
    (hmeasure : measure.Separates)
    {parts : List (List Char)}
    (h : ∀ part ∈ parts, part.getLast? = some ' ')
    (more : List Char) :
    cellsOf measure (parts.map measure) (parts.flatMap ('|' :: ·) ++ '|' :: more) =
      parts.map withoutBlanks := by
  induction parts with
  | nil => rfl
  | cons part rest ih =>
      obtain ⟨hpart, hrest⟩ := List.forall_mem_cons.mp h
      obtain ⟨s, rfl⟩ := List.getLast?_eq_some_iff.mp hpart
      -- whatever follows, a part or the end, begins with a bar
      obtain ⟨next, hnext⟩ : ∃ next, rest.flatMap ('|' :: ·) ++ '|' :: more = '|' :: next := by
        cases rest <;> simp
      have hcut := hmeasure.upToColumn_append Text.isSign_blank Text.isSign_bar s next
      have hwidth : measure (s ++ [' ']) = measure s + 1 := by
        rw [hmeasure.sign Text.isSign_blank, hmeasure.nil]
      have hline : ('|' :: (s ++ [' '])) ++ '|' :: next = '|' :: (s ++ ' ' :: '|' :: next) := by simp
      have hdrop : (s ++ ' ' :: '|' :: next).drop (s ++ [' ']).length = '|' :: next := by
        rw [List.append_cons s ' ' ('|' :: next), List.drop_left]
      rw [List.flatMap_cons, List.append_assoc, hnext, List.map_cons, List.map_cons, cellsOf, hline,
        List.tail_cons, hwidth, hcut, hdrop, ← hnext, ih hrest]

section OneLine

variable {t : Table} {measure : Text.Measure}

theorem feed_not_mem_line
    (h : t.OneLined)
    {row : List String}
    (hrow : row ∈ t.headers :: t.rows) :
    '\n' ∉ barred (t.rowParts row measure) := by
  refine feed_not_mem_barred fun part hpart => ?_
  obtain ⟨column, -, rfl⟩ := List.mem_map.mp hpart
  obtain ⟨before, after, hpart⟩ := part_eq measure (t.columnAlign column) (t.columnWidth column measure)
    (cellAt row column)
  have hcell := feed_not_mem_cellAt h hrow column
  rw [hpart]
  simp [List.mem_replicate, hcell]

/-- The lines of a table without line feeds: its headers, the rule, and one line for each row. -/
theorem lines_eq
    (hheaders : t.headers ≠ [])
    (h : t.OneLined) :
    t.lines measure =
      barred (t.rowParts t.headers measure) :: barred (t.ruleParts measure) ::
        t.rows.map fun row => barred (t.rowParts row measure) := by
  have hcolumns := columnCount_pos hheaders
  obtain ⟨hheader, hrows⟩ := List.forall_mem_cons.mp h
  rw [lines, rowLines_layout hcolumns hheader, rule_layout, List.singleton_append]
  congr 2
  rw [List.map_eq_flatMap]
  exact List.flatMap_congr fun row hrow => rowLines_layout hcolumns (hrows row hrow)

theorem splitOn_render
    (measure : Text.Measure)
    (hheaders : t.headers ≠ [])
    (h : t.OneLined) :
    (t.render measure).toList.splitOn '\n' =
      barred (t.rowParts t.headers measure) :: barred (t.ruleParts measure) ::
        t.rows.map fun row => barred (t.rowParts row measure) := by
  rw [render, String.toList_ofList, lines_eq hheaders h]
  refine List.splitOn_intercalate '\n' ?_ (List.cons_ne_nil _ _)
  intro line hline
  rcases List.mem_cons.mp hline with rfl | hline
  · exact feed_not_mem_line h List.mem_cons_self
  rcases List.mem_cons.mp hline with rfl | hline
  · refine feed_not_mem_barred fun part hpart => ?_
    obtain ⟨i, -, rfl⟩ := List.mem_map.mp hpart
    simp [List.mem_replicate]
  · obtain ⟨row, hrow, rfl⟩ := List.mem_map.mp hline
    exact feed_not_mem_line h (List.mem_cons_of_mem _ hrow)

theorem map_measure_rowParts
    (hmeasure : measure.Separates)
    (h : t.OneLined)
    {row : List String}
    (hrow : row ∈ t.headers :: t.rows) :
    (t.rowParts row measure).map measure =
      (List.range t.columnCount).map fun i => t.columnWidth i measure + 2 := by
  rw [rowParts, List.map_map]
  exact List.map_congr_left fun i _ =>
    (showsCell_pad (measure_le_columnWidth hmeasure h hrow i)).measure_eq hmeasure

theorem map_measure_ruleParts
    (hmeasure : measure.Separates) :
    (t.ruleParts measure).map measure =
      (List.range t.columnCount).map fun i => t.columnWidth i measure + 2 := by
  rw [ruleParts, List.map_map]
  exact List.map_congr_left fun i _ => hmeasure.replicate Text.isSign_dash _

theorem measure_line
    (hmeasure : measure.Separates)
    (hheaders : t.headers ≠ [])
    {parts : List (List Char)}
    (hparts : parts.map measure = (List.range t.columnCount).map fun i => t.columnWidth i measure + 2) :
    measure (barred parts) = t.lineWidth measure := by
  have hne : parts ≠ [] := by
    rintro rfl
    have hlength := congrArg List.length hparts
    have hcolumns := columnCount_pos hheaders
    simp only [List.map_nil, List.length_nil, List.length_map, List.length_range] at hlength
    omega
  have hsum : (parts.map fun part => measure part + 1) =
      (parts.map measure).map (· + 1) := by
    rw [List.map_map]
    rfl
  rw [measure_barred hmeasure hne, hsum, hparts, List.map_map]
  rfl

/-- The cells of a row are read back from its line. -/
theorem cellsOf_rowParts
    (hmeasure : measure.Separates)
    (hheaders : t.headers ≠ [])
    (h : t.OneLined)
    {row : List String}
    (hrow : row ∈ t.headers :: t.rows) :
    cellsOf measure ((t.ruleParts measure).map List.length) (barred (t.rowParts row measure)) =
      (List.range t.columnCount).map fun i => withoutBlanks (cellAt row i) := by
  have hwidths : (t.ruleParts measure).map List.length = (t.rowParts row measure).map measure := by
    rw [map_measure_rowParts hmeasure h hrow, ruleParts, List.map_map]
    exact List.map_congr_left fun i _ => List.length_replicate
  have hne : t.rowParts row measure ≠ [] := by
    have hcolumns := columnCount_pos hheaders
    exact List.ne_nil_of_length_pos (by rwa [rowParts, List.length_map, List.length_range])
  have hlast : ∀ part ∈ t.rowParts row measure, part.getLast? = some ' ' := by
    intro part hpart
    obtain ⟨i, -, rfl⟩ := List.mem_map.mp hpart
    exact List.getLast?_concat
  rw [barred_eq hne, hwidths, cellsOf_bars hmeasure hlast, rowParts, List.map_map]
  refine List.map_congr_left fun i _ => ?_
  have hshows : ShowsCell measure (t.columnAlign i) (t.columnWidth i measure) (cellAt row i) _ :=
    showsCell_pad (measure_le_columnWidth hmeasure h hrow i)
  obtain ⟨before, after, hpart, -⟩ := hshows
  rw [Function.comp_apply, hpart, withoutBlanks_filled]

/-- The cells of a table are read back from its text, but for the blanks around them. -/
theorem readBack_render
    (hmeasure : measure.Separates)
    (hheaders : t.headers ≠ [])
    (h : t.OneLined) :
    readBack measure (t.render measure) =
      (t.headers :: t.rows).map fun row =>
        (List.range t.columnCount).map fun i => withoutBlanks (cellAt row i) := by
  have hne : t.ruleParts measure ≠ [] := by
    have hcolumns := columnCount_pos hheaders
    exact List.ne_nil_of_length_pos (by rwa [ruleParts, List.length_map, List.length_range])
  have hrule : ((barred (t.ruleParts measure)).splitOn '|').tail.dropLast = t.ruleParts measure := by
    rw [splitOn_barred hne, List.tail_cons, List.dropLast_concat]
    intro part hpart
    obtain ⟨i, -, rfl⟩ := List.mem_map.mp hpart
    simp [List.mem_replicate]
  rw [readBack, splitOn_render measure hheaders h]
  dsimp only
  rw [hrule, ← List.map_cons (f := fun row => barred (t.rowParts row measure)), List.map_map]
  exact List.map_congr_left fun row hrow => cellsOf_rowParts hmeasure hheaders h hrow

end OneLine

/-! ### Requests -/

section Measured

variable {measure : Text.Measure}

/-- A table is rendered by its requests as far as they tell the sides of its headers. -/
theorem render_of_requests
    (t : Table)
    {requests : List (String × Align)}
    (h : ∀ header ∈ t.headers, requests.reverse.lookup header = t.alignments.reverse.lookup header) :
    ({ t with alignments := requests } : Table).render measure = t.render measure := by
  have halign : ∀ i, ({ t with alignments := requests } : Table).columnAlign i = t.columnAlign i := by
    intro i
    unfold columnAlign
    dsimp only
    cases hheader : t.headers[i]? with
    | none => rfl
    | some header =>
        dsimp only
        rw [h header (List.mem_of_getElem? hheader)]
  have hlayout : ({ t with alignments := requests } : Table).layout measure = t.layout measure :=
    List.map_congr_left fun i _ => Prod.ext rfl (halign i)
  rw [render, render, lines, lines, hlayout]

theorem lookup_reverse_append
    (before after : List (String × Align))
    (header : String) :
    (before ++ after).reverse.lookup header =
      (after.reverse.lookup header).or (before.reverse.lookup header) := by
  rw [List.reverse_append, List.lookup_append]

theorem lookup_reverse_cons
    (request : String × Align)
    (after : List (String × Align))
    (header : String) :
    (request :: after).reverse.lookup header =
      (after.reverse.lookup header).or (List.lookup header [request]) := by
  rw [List.reverse_cons, List.lookup_append]

/-- A request for another header does not count. -/
theorem lookup_reverse_cons_of_ne
    {request : String × Align}
    {after : List (String × Align)}
    {header : String}
    (h : request.1 ≠ header) :
    (request :: after).reverse.lookup header = after.reverse.lookup header := by
  have hkey : (header == request.1) = false := beq_false_of_ne h.symm
  rw [lookup_reverse_cons, List.lookup_cons, hkey]
  simp

theorem render_of_unknown_request
    {t : Table}
    {before after : List (String × Align)}
    {request : String × Align}
    (hrequests : t.alignments = before ++ request :: after)
    (hunknown : request.1 ∉ t.headers) :
    ({ t with alignments := before ++ after } : Table).render measure = t.render measure := by
  refine render_of_requests t fun header hheader => ?_
  have hne : request.1 ≠ header := fun heq => hunknown (heq ▸ hheader)
  rw [hrequests, lookup_reverse_append, lookup_reverse_append, lookup_reverse_cons_of_ne hne]

theorem render_of_swapped_requests
    {t : Table}
    {before after : List (String × Align)}
    {first second : String × Align}
    (hrequests : t.alignments = before ++ first :: second :: after)
    (hdifferent : first.1 ≠ second.1) :
    ({ t with alignments := before ++ second :: first :: after } : Table).render measure = t.render measure := by
  refine render_of_requests t fun header _ => ?_
  rw [hrequests, lookup_reverse_append, lookup_reverse_append]
  congr 1
  -- at most one of the two is for the header
  by_cases hfirst : first.1 = header
  · have hsecond : second.1 ≠ header := fun heq => hdifferent (hfirst.trans heq.symm)
    rw [lookup_reverse_cons_of_ne hsecond, lookup_reverse_cons first, lookup_reverse_cons first,
      lookup_reverse_cons_of_ne hsecond]
  · rw [lookup_reverse_cons_of_ne hfirst, lookup_reverse_cons second, lookup_reverse_cons second,
      lookup_reverse_cons_of_ne hfirst]

end Measured

/-! ### The text of a table -/

/-- Let the signs of a table separate what a measure counts.  A table of single lines then has one line for its
headers, one rule and one line for each row, all of them equally wide.  Each row shows its cells in columns
that are as wide as their widest cell, on the sides that the requests ask for.  The cells can be read back
from the text, but for the blanks around them.  Requests for unknown headers change nothing, and requests
for different headers can change places. -/
theorem render_lays_out
    {measure : Text.Measure}
    (hmeasure : measure.Separates)
    (t : Table)
    (hheaders : t.headers ≠ [])
    (hlines : t.OneLined) :
    -- a line for the headers, a rule, and a line for each row
    (∃ header body,
      (t.render measure).toList.splitOn '\n' = header :: barred (t.ruleParts measure) :: body ∧
      List.Forall₂ (t.ShowsRow measure) (t.headers :: t.rows) (header :: body)) ∧
    (∀ line ∈ (t.render measure).toList.splitOn '\n', measure line = t.lineWidth measure) ∧
    -- the columns: enough for every row and no more, their widths and their sides
    (∀ row ∈ t.headers :: t.rows, row.length ≤ t.columnCount) ∧
    (∃ row ∈ t.headers :: t.rows, row.length = t.columnCount) ∧
    (∀ column,
      t.IsColumnWidth measure column (t.columnWidth column measure) ∧
        t.TakesSide column (t.columnAlign column)) ∧
    -- reading back
    readBack measure (t.render measure) =
      (t.headers :: t.rows).map (fun row =>
        (List.range t.columnCount).map fun column => withoutBlanks (cellAt row column)) ∧
    -- requests
    (∀ before request after, t.alignments = before ++ request :: after → request.1 ∉ t.headers →
      ({ t with alignments := before ++ after } : Table).render measure = t.render measure) ∧
    (∀ before first second after, t.alignments = before ++ first :: second :: after →
      first.1 ≠ second.1 →
      ({ t with alignments := before ++ second :: first :: after } : Table).render measure =
        t.render measure) := by
  have hsplit := splitOn_render measure hheaders hlines
  refine ⟨⟨_, _, hsplit, ?shows⟩, ?width, fun row hrow => length_le_columnCount hrow,
    exists_length_eq_columnCount t,
    fun column => ⟨isColumnWidth_columnWidth hmeasure hlines column, takesSide_columnAlign t column⟩,
    readBack_render hmeasure hheaders hlines, fun _ _ _ hrequests hunknown =>
      render_of_unknown_request hrequests hunknown, fun _ _ _ _ hrequests hdifferent =>
      render_of_swapped_requests hrequests hdifferent⟩
  case shows =>
    rw [← List.map_cons (f := fun row => barred (t.rowParts row measure)), List.forall₂_map_right_iff,
      List.forall₂_same]
    exact fun row hrow => showsRow_rowParts hmeasure hlines hrow
  case width =>
    rw [hsplit]
    intro line hline
    rcases List.mem_cons.mp hline with rfl | hline
    · exact measure_line hmeasure hheaders (map_measure_rowParts hmeasure hlines List.mem_cons_self)
    rcases List.mem_cons.mp hline with rfl | hline
    · exact measure_line hmeasure hheaders (map_measure_ruleParts hmeasure)
    · obtain ⟨row, hrow, rfl⟩ := List.mem_map.mp hline
      exact measure_line hmeasure hheaders (map_measure_rowParts hmeasure hlines (List.mem_cons_of_mem _ hrow))

/-- A table with a header twice, rows of different lengths, wide characters and a bar in a cell. -/
def raggedTable : Table where
  headers := ["ip", "n", "ip"]
  rows := [["日本", "1"], [], ["a|b", "22", " x", "y"]]
  alignments := [("n", .left), ("none", .center), ("ip", .right), ("n", .right)]

/-- The bar is read as part of its cell, and the request for no column can be left out. -/
theorem raggedTable_read_back :
    Text.Measure.Separates Text.displayWidth ∧
    readBack Text.displayWidth raggedTable.render =
      [["ip", "n", "ip", ""], ["日本", "1", "", ""], ["", "", "", ""], ["a|b", "22", "x", "y"]].map
        (·.map String.toList) ∧
    ({ raggedTable with alignments := [("n", .left), ("ip", .right), ("n", .right)] } : Table).render =
      raggedTable.render := by
  have hheaders : raggedTable.headers ≠ [] := by decide
  have hlines : raggedTable.OneLined := by decide
  obtain ⟨-, -, -, -, -, hread, hunknown, -⟩ :=
    render_lays_out Text.separates_displayWidth raggedTable hheaders hlines
  refine ⟨Text.separates_displayWidth, hread.trans (by decide +kernel), ?_⟩
  exact hunknown [("n", .left)] ("none", .center) _ rfl (by decide)

example :
    raggedTable.render =
      "|   ip |  n | ip |   |\n|------|----|----|---|\n| 日本 |  1 |    |   |\n|      |    |    |   |\n|  a|b | 22 |  x | y |" := by
  decide +kernel

end Table
end AccessAudit
