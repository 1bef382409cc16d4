import AccessAudit.Text.Blank
import AccessAudit.Text.Width

/-!
# Text tables

Tables with a header line, a rule and one line per row, in columns of fixed width between bars.  A
cell of several lines makes its row higher.  Every column is as wide as its widest line and at least
one character wide, and has a blank on either side.  How many columns a line takes is counted by the
measure at hand, and a column may become as wide as it has to.
-/

namespace AccessAudit

/-- The side on which a cell's text stands. -/
inductive Align
  | left
  | center
  | right
  deriving Repr, DecidableEq

/-- A table: its headers, its rows of cells, and requests that set the alignment of the first column
with a given header, later requests replacing earlier ones. -/
structure Table where
  headers : List String
  rows : List (List String) := []
  alignments : List (String × Align) := []
  deriving Repr, DecidableEq

namespace Table

/-- The table with a further alignment request. -/
def align (t : Table) (column : String) (side : Align) : Table :=
  { t with alignments := t.alignments ++ [(column, side)] }

/-- The table with these rows. -/
def withRows (t : Table) (rows : List (List String)) : Table :=
  { t with rows := rows }

/-- The lines of a cell. -/
def cellLines (cell : String) : List (List Char) :=
  Text.splitAll '\n' cell.toList

/-- The number of columns: that of the longest row or of the headers. -/
def columnCount (t : Table) : Nat :=
  (t.headers :: t.rows).foldl (fun n row => max n row.length) 0

/-- The width of a column: that of its widest line, and at least one. -/
def columnWidth (t : Table) (column : Nat) (measure : Text.Measure := Text.displayWidth) : Nat :=
  (t.headers :: t.rows).foldl
    (fun n row =>
      match row[column]? with
      | none => n
      | some cell => (cellLines cell).foldl (fun n line => max n (measure line)) n)
    1

/-- The side of a column: that of the last request for its header, if no earlier column has the same
header, and the left otherwise. -/
def columnAlign (t : Table) (column : Nat) : Align :=
  match t.headers[column]? with
  | none => .left
  | some header =>
      if t.headers.idxOf header = column then
        match t.alignments.reverse.lookup header with
        | some side => side
        | none => .left
      else .left

/-- A line filled up with blanks to a width; in the centre an odd blank stands before it. -/
def pad (side : Align) (width : Nat) (line : List Char) (measure : Text.Measure := Text.displayWidth) :
    List Char :=
  let spare := width - measure line
  match side with
  | .left => line ++ List.replicate spare ' '
  | .right => List.replicate spare ' ' ++ line
  | .center =>
      List.replicate (spare - spare / 2) ' ' ++ line ++ List.replicate (spare / 2) ' '

/-- A column as the lines are laid out: its width and side. -/
abbrev Layout := List (Nat × Align)

/-- The layout of all columns. -/
def layout (t : Table) (measure : Text.Measure := Text.displayWidth) : Layout :=
  (List.range t.columnCount).map fun i => (t.columnWidth i measure, t.columnAlign i)

/-- A row as one list of lines per column; missing cells are blank. -/
def rowCells (columns : Nat) (row : List String) : List (List (List Char)) :=
  (List.range columns).map fun i =>
    match row[i]? with
    | some cell => cellLines cell
    | none => [[]]

/-- The parts of a line between bars. -/
def barred (parts : List (List Char)) : List Char :=
  '|' :: (List.intercalate ['|'] parts ++ ['|'])

/-- The text lines of a row. -/
def rowLines (columns : Layout) (row : List String) (measure : Text.Measure := Text.displayWidth) :
    List (List Char) :=
  let cells := rowCells columns.length row
  let height := cells.foldl (fun n lines => max n lines.length) 0
  (List.range height).map fun i =>
    barred <|
      (columns.zip cells).map fun ((width, side), lines) =>
        ' ' :: pad side width ((lines[i]?).getD []) measure ++ [' ']

/-- The line between the headers and the rows. -/
def rule (columns : Layout) : List Char :=
  barred (columns.map fun (width, _) => List.replicate (width + 2) '-')

/-- The lines of a table. -/
def lines (t : Table) (measure : Text.Measure := Text.displayWidth) : List (List Char) :=
  let columns := t.layout measure
  rowLines columns t.headers measure ++ rule columns :: t.rows.flatMap fun row => rowLines columns row measure

/-- The text of a table. -/
def render (t : Table) (measure : Text.Measure := Text.displayWidth) : String :=
  String.ofList (List.intercalate ['\n'] (t.lines measure))

end Table
end AccessAudit
