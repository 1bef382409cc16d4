import AccessAudit.Store.Disk

/-!
# Databases as text

A database is kept in a file as lines of fields with tabs between them.  The first line tells what the
file is; every table that is present has a line with its name, and after it a line for each row.  Tabs,
line breaks and backslashes within a field are escaped.
-/

namespace AccessAudit
namespace Store
namespace Snapshot

/-! ### Fields -/

/-- A field as it is written. -/
def escape : List Char → List Char
  | [] => []
  | '\\' :: rest => '\\' :: '\\' :: escape rest
  | '\t' :: rest => '\\' :: 't' :: escape rest
  | '\n' :: rest => '\\' :: 'n' :: escape rest
  | c :: rest => c :: escape rest

/-- A field as it is read. -/
def unescape : List Char → List Char
  | '\\' :: 't' :: rest => '\t' :: unescape rest
  | '\\' :: 'n' :: rest => '\n' :: unescape rest
  | '\\' :: c :: rest => c :: unescape rest
  | c :: rest => c :: unescape rest
  | [] => []

/-- A line of fields. -/
def line (fields : List String) : List Char :=
  List.intercalate ['\t'] (fields.map fun f => escape f.toList)

/-- The fields of a line. -/
def fields (s : List Char) : List String :=
  (Text.splitAll '\t' s).map fun f => String.ofList (unescape f)

/-! ### Rows -/

/-- The fields of a cell: its kind, and its text or a character for each byte. -/
def cellFields : Cell → List String
  | .text s => ["text", s]
  | .bytes b => ["bytes", String.ofList (b.map fun n => Char.ofNat n.toNat)]

/-- The cell of two fields. -/
def readCell? : String → String → Option Cell
  | "text", t => some (.text t)
  | "bytes", t => some (.bytes (t.toList.map fun c => UInt8.ofNat c.toNat))
  | _, _ => none

/-- The fields of a user id: its kind and its text. -/
def uidFields : Uid → List String
  | .integer n => ["integer", Decimal.text n]
  | .real x => ["real", x.shortestText]
  | .text c => cellFields c

/-- The user id of two fields. -/
def readUid? : String → String → Option Uid
  | "integer", t =>
      match Decimal.readInt64 t.toList with
      | .ok n => some (.integer n)
      | .error _ => none
  | "real", t => (Double.ofText? t.toList).map .real
  | kind, t => (readCell? kind t).map .text

/-- The fields of an event. -/
def eventFields (e : Event) : List String :=
  "event" :: e.kind.text :: (cellFields e.source ++ cellFields e.date ++ uidFields e.uid)

/-- The fields of a blocked entity. -/
def blockFields : Option Cell → List String
  | some entity => "block" :: cellFields entity
  | none => ["block"]

/-! ### Files -/

/-- The first line of a file. -/
def header : String := "iptracking database"

/-- The lines of a database. -/
def lines (t : Tables) (writeAhead : Bool) : List (List String) :=
  [header, if writeAhead then "log ahead" else "no log"] ::
    ((t.events.map fun es => ["events"] :: es.map eventFields).getD [] ++
      (t.blocks.map fun bs => ["blocks"] :: bs.map blockFields).getD [])

/-- A database as text. -/
def write (t : Tables) (writeAhead : Bool) : String :=
  String.ofList (List.intercalate ['\n'] ((lines t writeAhead).map line))

/-- The tables with the row or the table that a line tells of. -/
def readLine (t : Tables) : List String → Option Tables
  | ["events"] => some { t with events := some [] }
  | ["blocks"] => some { t with blocks := some [] }
  | ["event", kind, sourceKind, source, dateKind, date, uidKind, uid] => do
      let e : Event :=
        { source := ← readCell? sourceKind source
          kind := ← EventKind.ofText? kind
          uid := ← readUid? uidKind uid
          date := ← readCell? dateKind date }
      return { t with events := some (e :: t.events.getD []) }
  | ["block", kind, entity] => do
      return { t with blocks := some (some (← readCell? kind entity) :: t.blocks.getD []) }
  | ["block"] => some { t with blocks := some (none :: t.blocks.getD []) }
  | _ => none

/-- What a file with a text is.  Rows are gathered in reverse and put in order at the end. -/
def read (text : String) : Node :=
  match (Text.splitAll '\n' text.toList).map fields with
  | [first, log] :: rest =>
      if first = header then
        match rest.foldlM readLine Tables.none with
        | some t =>
            .database ⟨t.events.map List.reverse, t.blocks.map List.reverse⟩ (log = "log ahead")
        | none => .plain text
      else .plain text
  | _ => .plain text

end Snapshot
end Store
end AccessAudit
