import AccessAudit.Store.Fault
import AccessAudit.Store.Value

/-!
# The tables

The log of authentication and session events, and the list of blocked addresses.  A table is present
or missing; its rows stand in the order in which they were inserted.
-/

namespace AccessAudit
namespace Store

/-- What an event records. -/
inductive EventKind
  | auth
  | openSession
  | closeSession
  deriving Repr, DecidableEq

/-- The name of a kind of event. -/
def EventKind.text : EventKind → String
  | .auth => "auth"
  | .openSession => "open_session"
  | .closeSession => "close_session"

/-- The kind of event with a name. -/
def EventKind.ofText? (s : String) : Option EventKind :=
  if s = "auth" then some .auth
  else if s = "open_session" then some .openSession
  else if s = "close_session" then some .closeSession
  else none

/-- The kind of event with a name.  Bytes are no name, also where they spell one. -/
def EventKind.ofCell? : Cell → Option EventKind
  | .text s => EventKind.ofText? s
  | .bytes _ => none

/-- A logged event. -/
structure Event where
  source : Cell
  kind : EventKind
  uid : Uid
  date : Cell
  deriving DecidableEq

/-- The values of a row to be logged.  Without a date the present is taken. -/
structure NewEvent where
  source : Value
  kind : Value
  uid : Value
  date : Option Value
  deriving DecidableEq

/-- The event that a row is stored as: every column keeps its kind of value, none may be null, and the
kind must be a known one. -/
def NewEvent.stored (now : Int) (row : NewEvent) : Except Fault Event := do
  let source ← row.source.toCell?.elim (.error (.required .source)) .ok
  let kind ← row.kind.toCell?.elim (.error (.required .kind)) .ok
  let uid ← row.uid.toUid?.elim (.error (.required .uid)) .ok
  let date ←
    match row.date with
    | none => .ok (Calendar.stampText now : Cell)
    | some v => v.toCell?.elim (.error (.required .date)) .ok
  let kind ← (EventKind.ofCell? kind).elim (.error .unknownKind) .ok
  return ⟨source, kind, uid, date⟩

/-- The contents of a database.  A blocked entity may be null. -/
structure Tables where
  events : Option (List Event)
  blocks : Option (List (Option Cell))
  deriving DecidableEq

/-- Both tables, without rows. -/
def Tables.fresh : Tables :=
  ⟨some [], some []⟩

/-- No tables. -/
def Tables.none : Tables :=
  ⟨.none, .none⟩

/-- Adds the tables that are missing. -/
def Tables.withSchema (t : Tables) : Tables :=
  ⟨some (t.events.getD []), some (t.blocks.getD [])⟩

/-- The logged events. -/
def Tables.getEvents (t : Tables) : Except Fault (List Event) :=
  t.events.elim (.error (.noSuchTable .events)) .ok

/-- The blocked entities. -/
def Tables.getEntities (t : Tables) : Except Fault (List (Option Cell)) :=
  t.blocks.elim (.error (.noSuchTable .blocks)) .ok

/-- The texts of the blocked entities. -/
def Tables.getBlocks (t : Tables) : Except Fault (List (Option String)) :=
  t.getEntities.map fun blocks => blocks.map fun entity => entity.map Cell.toText

end Store
end AccessAudit
