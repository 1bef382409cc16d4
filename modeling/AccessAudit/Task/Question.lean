import AccessAudit.Calendar.Period
import AccessAudit.Decimal.Grouped
import AccessAudit.Store.Grouping
import AccessAudit.Task.Context

/-!
# Questions to the log

What the reports have in common: reading the tables, reading a user id as a number, the period that a
group of events covers, and tables whose rows are annotated.
-/

namespace AccessAudit
namespace Task

open Store (Cell Event Uid Session)

variable {σ : Type}

/-- A report that reads the log and needs no annotations. -/
def onEvents (report : Session → List Event → Except Fault (List String)) : Reporting σ :=
  fun (s, c) =>
    let (tables, s) := s.read
    match tables.getEvents with
    | .error e => (.error (Fault.ofStore e), (s, c))
    | .ok events => (report s events, (s, c))

/-- The number of logged events. -/
def countEvents (s : Session) : Except Fault Nat × Session :=
  let (tables, s) := s.read
  (Fault.during .countEvents (tables.getEvents.map List.length), s)

/-- The number of blocked entities. -/
def countBlocks (s : Session) : Except Fault Nat × Session :=
  let (tables, s) := s.read
  (Fault.during .countBlocks (tables.getEntities.map List.length), s)

/-- A user id where a row is expected to hold a whole number. -/
def integerUid : Uid → Except Store.Fault Int
  | .integer n => .ok n
  | .real _ => .error (.columnType .real 0 "uid")
  | .text c => .error (.columnType c.type 0 "uid")

/-- What reading rows comes to if a column that is expected to hold texts holds bytes in one of them. -/
def onlyTexts (column : String) (cells : List Cell) : Except Store.Fault Unit :=
  if cells.any Cell.isBytes then .error (.columnType .blob 0 column) else .ok ()

/-- What a question comes to that asks of each of these addresses whether it lies in a local network.  With
a limit of 0 it does not ask. -/
def onlyAddresses (topN : Nat) (cells : List Cell) : Except Store.Fault Unit :=
  if topN % Decimal.word64Count ≠ 0 ∧ cells.any Cell.isBytes then .error (.argumentType .blob) else .ok ()

/-- The number of events of a kind. -/
def countKind (kind : Store.EventKind) (events : List Event) : Nat :=
  events.countP fun e => e.kind = kind

/-- The first of the events with the least date. -/
def earliestEvent : List Event → Option Event
  | [] => none
  | e :: rest => some (rest.foldl (fun m x => if x.date < m.date then x else m) e)

/-- The key under which a group is listed: that of its earliest event. -/
def listedKey {κ : Type} (key : Event → κ) (group : κ × List Event) : κ :=
  ((earliestEvent group.2).map key).getD group.1

/-- The least cell of a list. -/
def earliest : List Cell → Option Cell
  | [] => none
  | d :: rest => some (rest.foldl (fun m x => if x < m then x else m) d)

/-- The greatest cell of a list. -/
def latest : List Cell → Option Cell
  | [] => none
  | d :: rest => some (rest.foldl (fun m x => if m < x then x else m) d)

/-- Seconds between the first and the last event of a group; there are none if one of the two dates
names no moment. -/
def period (now : Int) (events : List Event) : Option Double := do
  let dates := events.map (·.date)
  Calendar.secondsBetween? now (← earliest dates).toText (← latest dates).toText

/-- The headers of the annotation columns. -/
def orgHeaders : List String := ["org cidr", "org country", "org descrip"]

/-- The cells of the annotation columns. -/
def orgCells (r : Record) : List String := [r.cidr, r.country, r.description]

/-- A table with headers and their alignments, in order. -/
def tableOf (columns : List (String × Align)) (rows : List (List String)) : Table :=
  { headers := columns.map (·.1), rows := rows, alignments := columns }

/-- The annotation columns with their alignments. -/
def orgColumns : List (String × Align) :=
  orgHeaders.zip [.right, .center, .left]

/-- A table whose rows end in annotations of an address each, made in the order of the rows. -/
def annotatedTable (columns : List (String × Align)) (rows : List (String × List String))
    (cache : Cache σ) : String × Cache σ :=
  let (records, cache) := cache.annotateAll (rows.map (·.1))
  let cells := (rows.zip records).map fun (row, record) => row.2 ++ orgCells record
  ((tableOf (columns ++ orgColumns) cells).render, cache)

end Task
end AccessAudit
