import AccessAudit.Proofs.Text.Width
import AccessAudit.Table
import Mathlib.Algebra.BigOperators.Group.List.Basic
import Mathlib.Data.List.Basic

/-!
# The lines of a table

A table without line feeds in its cells has one line for its headers, one rule, and one line for each row.
By any measure that the signs of a table separate, all of them take the same number of columns.  Between the
bars of a row's line stand its cells, each of them whole and filled up with blanks to the width of its column,
on the side that the requests ask for.
-/

namespace AccessAudit
namespace Table

/-- The text of a row in a column, blank where the row is too short. -/
def cellAt (row : List String) (column : Nat) : List Char :=
  ((row[column]?).getD "").toList

/-- A table without line feeds in its headers and cells. -/
def OneLined (t : Table) : Prop :=
  ∀ row ∈ t.headers :: t.rows, ∀ cell ∈ row, '\n' ∉ cell.toList

instance (t : Table) : Decidable t.OneLined :=
  inferInstanceAs (Decidable (∀ row ∈ t.headers :: t.rows, ∀ cell ∈ row, '\n' ∉ cell.toList))

/-! ### Columns -/

/-- A fold that only grows stays below a bound if its start and all its steps do. -/
theorem foldl_le_iff
    {α : Type}
    {step : Nat → α → Nat}
    {P : α → Prop}
    {bound : Nat}
    (hstep : ∀ n x, step n x ≤ bound ↔ n ≤ bound ∧ P x)
    (xs : List α)
    (start : Nat) :
    xs.foldl step start ≤ bound ↔ start ≤ bound ∧ ∀ x ∈ xs, P x := by
  induction xs generalizing start with
  | nil => simp
  | cons x rest ih => rw [List.foldl_cons, ih, hstep, List.forall_mem_cons, and_assoc]

theorem foldl_max_le_iff
    {α : Type}
    (size : α → Nat)
    (xs : List α)
    (start bound : Nat) :
    xs.foldl (fun n x => max n (size x)) start ≤ bound ↔ start ≤ bound ∧ ∀ x ∈ xs, size x ≤ bound :=
  foldl_le_iff (P := fun x => size x ≤ bound) (fun _ _ => Nat.max_le) xs start

theorem columnCount_le_iff
    {t : Table}
    {bound : Nat} :
    t.columnCount ≤ bound ↔ ∀ row ∈ t.headers :: t.rows, row.length ≤ bound := by
  rw [columnCount, foldl_max_le_iff List.length]
  exact and_iff_right (Nat.zero_le bound)

theorem length_le_columnCount
    {t : Table}
    {row : List String}
    (h : row ∈ t.headers :: t.rows) :
    row.length ≤ t.columnCount :=
  columnCount_le_iff.mp (Nat.le_refl _) row h

theorem columnCount_pos
    {t : Table}
    (h : t.headers ≠ []) :
    0 < t.columnCount :=
  Nat.lt_of_lt_of_le (List.length_pos_of_ne_nil h) (length_le_columnCount List.mem_cons_self)

/-- As many columns as the longest row has cells. -/
theorem exists_length_eq_columnCount
    (t : Table) :
    ∃ row ∈ t.headers :: t.rows, row.length = t.columnCount := by
  by_contra hnone
  have hbelow : ∀ row ∈ t.headers :: t.rows, row.length ≤ t.columnCount - 1 := by
    intro row hrow
    have hle := length_le_columnCount hrow
    have hne : row.length ≠ t.columnCount := fun heq => hnone ⟨row, hrow, heq⟩
    omega
  have hle := columnCount_le_iff.mpr hbelow
  have hheaders := length_le_columnCount (t := t) List.mem_cons_self
  have hne : t.headers.length ≠ t.columnCount := fun heq => hnone ⟨t.headers, List.mem_cons_self, heq⟩
  omega

section OneLine

variable {t : Table} {measure : Text.Measure}

theorem feed_not_mem_cellAt
    (h : t.OneLined)
    {row : List String}
    (hrow : row ∈ t.headers :: t.rows)
    (column : Nat) :
    '\n' ∉ cellAt row column := by
  unfold cellAt
  cases hcell : row[column]? with
  | none => simp
  | some cell => exact h row hrow cell (List.mem_of_getElem? hcell)

theorem cellLines_of_feed_not_mem
    {cell : String}
    (h : '\n' ∉ cell.toList) :
    cellLines cell = [cell.toList] :=
  List.splitOn_eq_singleton h

theorem columnWidth_le_iff
    (hmeasure : measure.Separates)
    (h : t.OneLined)
    {column bound : Nat} :
    t.columnWidth column measure ≤ bound ↔
      1 ≤ bound ∧ ∀ row ∈ t.headers :: t.rows, measure (cellAt row column) ≤ bound := by
  rw [columnWidth, foldl_le_iff (P := fun row =>
    ∀ cell, row[column]? = some cell → ∀ line ∈ cellLines cell, measure line ≤ bound)]
  · refine and_congr_right fun _ => forall₂_congr fun row hrow => ?_
    unfold cellAt
    cases hcell : row[column]? with
    | none => simp [hmeasure.nil]
    | some cell =>
        have hlines := cellLines_of_feed_not_mem (h row hrow cell (List.mem_of_getElem? hcell))
        simp [hlines]
  · intro n row
    cases hcell : row[column]? with
    | none => simp
    | some cell =>
        dsimp only
        rw [foldl_max_le_iff measure]
        simp

theorem one_le_columnWidth
    (hmeasure : measure.Separates)
    (h : t.OneLined)
    (column : Nat) :
    1 ≤ t.columnWidth column measure :=
  ((columnWidth_le_iff hmeasure h).mp (Nat.le_refl _)).1

theorem measure_le_columnWidth
    (hmeasure : measure.Separates)
    (h : t.OneLined)
    {row : List String}
    (hrow : row ∈ t.headers :: t.rows)
    (column : Nat) :
    measure (cellAt row column) ≤ t.columnWidth column measure :=
  ((columnWidth_le_iff hmeasure h).mp (Nat.le_refl _)).2 row hrow

/-- The width of a column: that of its widest cell, and one if all are without width. -/
def IsColumnWidth (t : Table) (measure : Text.Measure) (column width : Nat) : Prop :=
  (∀ row ∈ t.headers :: t.rows, measure (cellAt row column) ≤ width) ∧
  ((∃ row ∈ t.headers :: t.rows, measure (cellAt row column) = width) ∨
    width = 1 ∧ ∀ row ∈ t.headers :: t.rows, measure (cellAt row column) = 0)

theorem isColumnWidth_columnWidth
    (hmeasure : measure.Separates)
    (h : t.OneLined)
    (column : Nat) :
    t.IsColumnWidth measure column (t.columnWidth column measure) := by
  have hle : ∀ row ∈ t.headers :: t.rows, measure (cellAt row column) ≤ t.columnWidth column measure :=
    fun row hrow => measure_le_columnWidth hmeasure h hrow column
  refine ⟨hle, or_iff_not_imp_left.mpr fun hnone => ?_⟩
  have hlt : ∀ row ∈ t.headers :: t.rows,
      measure (cellAt row column) ≤ t.columnWidth column measure - 1 := by
    intro row hrow
    have hne : measure (cellAt row column) ≠ t.columnWidth column measure :=
      fun heq => hnone ⟨row, hrow, heq⟩
    have hle := hle row hrow
    omega
  have hone : t.columnWidth column measure = 1 := by
    -- otherwise the widest cell would leave room for a smaller width
    by_contra hne
    have hpos := one_le_columnWidth hmeasure h column
    have hsmaller := (columnWidth_le_iff hmeasure h).mpr ⟨by omega, hlt⟩
    omega
  refine ⟨hone, fun row hrow => ?_⟩
  have hlt := hlt row hrow
  omega

end OneLine

/-! ### Sides -/

/-- The side on which the cells of a column stand: that of the last request for its header, where no column
before it has the same header, and the left where there is no such request. -/
inductive TakesSide (t : Table) (column : Nat) : Align → Prop
  | requested {header : String} {side : Align} {before after : List (String × Align)} :
      t.headers[column]? = some header →
      (∀ earlier < column, t.headers[earlier]? ≠ some header) →
      t.alignments = before ++ (header, side) :: after →
      (∀ request ∈ after, request.1 ≠ header) →
      TakesSide t column side
  | unrequested :
      (∀ header, t.headers[column]? = some header →
        (∀ earlier < column, t.headers[earlier]? ≠ some header) →
        ∀ request ∈ t.alignments, request.1 ≠ header) →
      TakesSide t column .left

theorem idxOf_eq_iff
    {headers : List String}
    {column : Nat}
    {header : String}
    (h : headers[column]? = some header) :
    headers.idxOf header = column ↔ ∀ earlier < column, headers[earlier]? ≠ some header := by
  obtain ⟨hlength, hget⟩ := List.getElem?_eq_some_iff.mp h
  constructor
  · rintro rfl earlier hearlier hsame
    obtain ⟨hlt, hget'⟩ := List.getElem?_eq_some_iff.mp hsame
    have hother := List.not_of_lt_findIdx hearlier
    simp [hget'] at hother
  · intro hfirst
    have hmem : header ∈ headers := List.mem_of_getElem? h
    refine Nat.le_antisymm ?_ (Nat.le_of_not_lt fun hlt => ?_)
    · by_contra hgt
      have hother := List.not_of_lt_findIdx (Nat.lt_of_not_le hgt)
      simp [hget] at hother
    · exact hfirst _ hlt (List.getElem?_idxOf hmem)

/-- The last request for a header. -/
theorem lookup_reverse_eq_some_iff
    {requests : List (String × Align)}
    {header : String}
    {side : Align} :
    requests.reverse.lookup header = some side ↔
      ∃ before after, requests = before ++ (header, side) :: after ∧
        ∀ request ∈ after, request.1 ≠ header := by
  rw [List.lookup_eq_some_iff]
  constructor
  · rintro ⟨before, after, hreverse, hother⟩
    refine ⟨after.reverse, before.reverse, ?_, ?_⟩
    · rw [← List.reverse_reverse requests, hreverse]
      simp
    · intro request hmem hsame
      have hne := hother request (List.mem_reverse.mp hmem)
      simp [hsame] at hne
  · rintro ⟨before, after, rfl, hother⟩
    refine ⟨after.reverse, before.reverse, by simp, ?_⟩
    intro request hmem
    have hne := hother request (List.mem_reverse.mp hmem)
    simpa using hne.symm

theorem takesSide_columnAlign
    (t : Table)
    (column : Nat) :
    t.TakesSide column (t.columnAlign column) := by
  unfold columnAlign
  split
  · next hnone =>
      refine .unrequested fun header hheader => ?_
      rw [hnone] at hheader
      cases hheader
  · next header hheader =>
      split
      · next hfirst =>
          have hfirst := (idxOf_eq_iff hheader).mp hfirst
          split
          · next side hside =>
              obtain ⟨before, after, hrequests, hother⟩ := lookup_reverse_eq_some_iff.mp hside
              exact .requested hheader hfirst hrequests hother
          · next hside =>
              refine .unrequested fun header' hheader' _ request hmem hsame => ?_
              obtain rfl := Option.some.inj (hheader.symm.trans hheader')
              rw [List.lookup_eq_none_iff] at hside
              have hne := hside request (List.mem_reverse.mpr hmem)
              simp [hsame] at hne
      · next hlater =>
          refine .unrequested fun header' hheader' hfirst => ?_
          obtain rfl := Option.some.inj (hheader.symm.trans hheader')
          exact absurd ((idxOf_eq_iff hheader).mpr hfirst) hlater

/-! ### Lines -/

section Lines

variable {measure : Text.Measure}

/-- A part of a line that shows a cell: a blank on either side, and the cell between blanks that fill it up
to the width of its column.  An odd blank in the centre stands before the cell. -/
def ShowsCell (measure : Text.Measure) (side : Align) (width : Nat) (cell part : List Char) : Prop :=
  ∃ before after,
    part = List.replicate (before + 1) ' ' ++ cell ++ List.replicate (after + 1) ' ' ∧
    before + measure cell + after = width ∧
    match side with
    | .left => before = 0
    | .right => after = 0
    | .center => before = after ∨ before = after + 1

/-- A line that shows a row, one part for each column. -/
def ShowsRow (t : Table) (measure : Text.Measure) (row : List String) (line : List Char) : Prop :=
  ∃ parts,
    line = barred parts ∧ parts.length = t.columnCount ∧
    ∀ column part, parts[column]? = some part →
      ShowsCell measure (t.columnAlign column) (t.columnWidth column measure) (cellAt row column) part

/-- The parts of the line of a row. -/
def rowParts (t : Table) (row : List String) (measure : Text.Measure := Text.displayWidth) :
    List (List Char) :=
  (List.range t.columnCount).map fun i =>
    ' ' :: pad (t.columnAlign i) (t.columnWidth i measure) (cellAt row i) measure ++ [' ']

/-- The parts of the rule. -/
def ruleParts (t : Table) (measure : Text.Measure := Text.displayWidth) : List (List Char) :=
  (List.range t.columnCount).map fun i => List.replicate (t.columnWidth i measure + 2) '-'

/-- A part of a line is the text of its cell between blanks. -/
theorem part_eq
    (measure : Text.Measure)
    (side : Align)
    (width : Nat)
    (cell : List Char) :
    ∃ before after,
      ' ' :: pad side width cell measure ++ [' '] =
        List.replicate before ' ' ++ cell ++ List.replicate (after + 1) ' ' := by
  generalize hspare : width - measure cell = spare
  cases side with
  | left => exact ⟨1, spare, by simp [pad, hspare, List.replicate_succ']⟩
  | right => exact ⟨spare + 1, 0, by simp [pad, hspare, List.replicate_succ]⟩
  | center =>
      refine ⟨spare - spare / 2 + 1, spare / 2, ?_⟩
      rw [List.replicate_succ, List.replicate_succ']
      simp [pad, hspare]

theorem showsCell_pad
    {side : Align}
    {width : Nat}
    {cell : List Char}
    (h : measure cell ≤ width) :
    ShowsCell measure side width cell (' ' :: pad side width cell measure ++ [' ']) := by
  cases side with
  | left =>
      refine ⟨0, width - measure cell, ?_, by omega, rfl⟩
      simp [pad, List.replicate_succ']
  | right =>
      refine ⟨width - measure cell, 0, ?_, by omega, rfl⟩
      simp [pad, List.replicate_succ]
  | center =>
      refine ⟨width - measure cell - (width - measure cell) / 2,
        (width - measure cell) / 2, ?_, by omega, by dsimp only; omega⟩
      rw [List.replicate_succ, List.replicate_succ']
      simp [pad]

theorem ShowsCell.measure_eq
    (hmeasure : measure.Separates)
    {side : Align}
    {width : Nat}
    {cell part : List Char}
    (h : ShowsCell measure side width cell part) :
    measure part = width + 2 := by
  obtain ⟨before, after, rfl, hwidth, -⟩ := h
  rw [hmeasure.append_replicate Text.isSign_blank, hmeasure.replicate_append Text.isSign_blank]
  omega

theorem rule_layout
    (t : Table)
    (measure : Text.Measure) :
    rule (t.layout measure) = barred (t.ruleParts measure) := by
  rw [rule, layout, List.map_map]
  rfl

/-- A row without line feeds has one line. -/
theorem rowLines_layout
    {t : Table}
    (hcolumns : 0 < t.columnCount)
    {row : List String}
    (hrow : ∀ cell ∈ row, '\n' ∉ cell.toList) :
    rowLines (t.layout measure) row measure = [barred (t.rowParts row measure)] := by
  have hcells : rowCells (t.layout measure).length row =
      (List.range t.columnCount).map fun i => [cellAt row i] := by
    rw [rowCells, layout, List.length_map, List.length_range]
    refine List.map_congr_left fun i _ => ?_
    unfold cellAt
    cases hcell : row[i]? with
    | none => rfl
    | some cell => exact cellLines_of_feed_not_mem (hrow cell (List.mem_of_getElem? hcell))
  have hheight : ((List.range t.columnCount).map fun i => [cellAt row i]).foldl
      (fun n lines => max n lines.length) 0 = 1 := by
    refine Nat.le_antisymm ((foldl_max_le_iff List.length _ _ _).mpr ⟨Nat.zero_le _, ?_⟩) ?_
    · intro lines hlines
      obtain ⟨i, -, rfl⟩ := List.mem_map.mp hlines
      rfl
    · refine Nat.pos_of_ne_zero fun hzero => ?_
      have hle := ((foldl_max_le_iff List.length _ _ _).mp (Nat.le_of_eq hzero)).2
        [cellAt row 0] (List.mem_map_of_mem (List.mem_range.mpr hcolumns))
      exact absurd hle (by simp)
  rw [rowLines, hcells]
  dsimp only
  rw [hheight, List.range_one, List.map_singleton, layout, List.zip_map', List.map_map]
  rfl

theorem showsRow_rowParts
    (hmeasure : measure.Separates)
    {t : Table}
    (h : t.OneLined)
    {row : List String}
    (hrow : row ∈ t.headers :: t.rows) :
    t.ShowsRow measure row (barred (t.rowParts row measure)) := by
  refine ⟨_, rfl, by simp [rowParts], fun column part hpart => ?_⟩
  rw [rowParts, List.getElem?_map, Option.map_eq_some_iff] at hpart
  obtain ⟨i, hi, rfl⟩ := hpart
  obtain ⟨hcolumn, hget⟩ := List.getElem?_eq_some_iff.mp hi
  obtain rfl : column = i := by simpa using hget
  exact showsCell_pad (measure_le_columnWidth hmeasure h hrow column)

end Lines

end Table
end AccessAudit
