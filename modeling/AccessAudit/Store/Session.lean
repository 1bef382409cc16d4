import AccessAudit.Network.Block
import AccessAudit.Store.Tables

/-!
# Sessions

A session is one connection to a database together with what it keeps for itself: the reference set in
a temporary table, the networks that count as local, and an open transaction.  The contents of a
transaction are fixed at its first access; until then and outside a transaction a session sees what was
last committed by anyone.  One connection at a time may have written: another one is refused until the
transaction ends, and a transaction whose contents have been overtaken may no longer write.
-/

namespace AccessAudit
namespace Store

/-- An open transaction. -/
structure Transaction where
  /-- The reference set when the transaction began. -/
  referenceBefore : Option (List Int)
  /-- The contents, once they are fixed. -/
  view : Option Tables := none
  /-- Whether the transaction has taken the right to write. -/
  writing : Bool := false
  /-- Whether someone else has committed since the contents were fixed. -/
  overtaken : Bool := false
  deriving DecidableEq

/-- What keeps a session from writing. -/
structure Limits where
  /-- The session asked not to write. -/
  queryOnly : Bool := false
  /-- The database was opened for reading. -/
  readOnlyFile : Bool := false
  deriving DecidableEq

/-- A session. -/
structure Session where
  /-- The committed contents of the database. -/
  committed : Tables
  /-- The temporary table of reference user ids, ascending and without repetition. -/
  reference : Option (List Int) := none
  transaction : Option Transaction := none
  limits : Limits := {}
  localNetworks : List Block := []
  /-- The present, in seconds since the start of 1970. -/
  now : Int
  deriving DecidableEq

namespace Session

/-- The contents that the statements of the session see. -/
def tables (s : Session) : Tables :=
  match s.transaction with
  | none => s.committed
  | some t => t.view.getD s.committed

/-- Whether a transaction is open. -/
def inTransaction (s : Session) : Bool :=
  s.transaction.isSome

/-- Fixes the contents of an open transaction. -/
def fixView (s : Session) : Session :=
  { s with transaction := s.transaction.map fun t => { t with view := some s.tables } }

@[simp] theorem tables_fixView
    (s : Session) :
    s.fixView.tables = s.tables := by
  cases h : s.transaction <;> simp [tables, fixView, h]

@[simp] theorem fixView_fixView
    (s : Session) :
    s.fixView.fixView = s.fixView := by
  cases h : s.transaction <;> simp [tables, fixView, h]

/-- Reads the contents, which fixes them for an open transaction. -/
def read (s : Session) : Tables × Session :=
  (s.tables, s.fixView)

/-! ### Transactions -/

/-- Opens a transaction. -/
def begin (s : Session) : Except Fault Session :=
  match s.transaction with
  | some _ => .error .alreadyInTransaction
  | none => .ok { s with transaction := some { referenceBefore := s.reference } }

/-- Ends the transaction and keeps what it changed. -/
def commit (s : Session) : Except Fault Session :=
  match s.transaction with
  | none => .error .nothingToCommit
  | some t =>
      .ok
        { s with
          committed := if t.writing then s.tables else s.committed
          transaction := none }

/-- Ends the transaction and restores what it changed. -/
def rollBack (s : Session) : Except Fault Session :=
  match s.transaction with
  | none => .error .nothingToRollBack
  | some t => .ok { s with reference := t.referenceBefore, transaction := none }

/-! ### Writing -/

/-- Applies a change to the contents.  A change that fails leaves them as they were, but an open
transaction has then taken the right to write. -/
def write {α : Type} (change : Tables → Except Fault (Tables × α)) (s : Session) :
    Except Fault α × Session :=
  if s.limits.queryOnly then (.error .readOnly, s)
  else
    match s.transaction with
    | none =>
        if s.limits.readOnlyFile then (.error .readOnly, s)
        else
          match change s.committed with
          | .error e => (.error e, s)
          | .ok (t, a) => (.ok a, { s with committed := t })
    | some t =>
        let s := s.fixView
        if s.limits.readOnlyFile then (.error .readOnly, s)
        else if t.overtaken ∧ !t.writing then (.error .locked, s)
        else
          match change s.tables with
          | .error e =>
              (.error e,
                { s with transaction := some { t with view := some s.tables, writing := true } })
          | .ok (new, a) =>
              (.ok a, { s with transaction := some { t with view := some new, writing := true } })

/-- Applies a change to the rows of the log.  A missing log is noticed before the right to write. -/
def writeEvents {α : Type} (change : List Event → Except Fault (List Event × α)) (s : Session) :
    Except Fault α × Session :=
  match s.tables.events with
  | none => (.error (.noSuchTable .events), s)
  | some _ =>
      s.write fun t => do
        let (events, a) ← change (← t.getEvents)
        return ({ t with events := some events }, a)

/-- Applies a change to the blocked entities. -/
def writeBlocks {α : Type}
    (change : List (Option Cell) → Except Fault (List (Option Cell) × α)) (s : Session) :
    Except Fault α × Session :=
  match s.tables.blocks with
  | none => (.error (.noSuchTable .blocks), s)
  | some _ =>
      s.write fun t => do
        let (blocks, a) ← change (← t.getEntities)
        return ({ t with blocks := some blocks }, a)

/-- Logs rows, all of them or none, and returns their number. -/
def insertEvents (rows : List NewEvent) (s : Session) : Except Fault Nat × Session :=
  s.writeEvents fun events => do
    let new ← rows.mapM (NewEvent.stored s.now)
    return (events ++ new, new.length)

/-- Removes the events that a test selects, and returns their number. -/
def deleteEvents (selected : Event → Bool) (s : Session) : Except Fault Nat × Session :=
  s.writeEvents fun events =>
    let kept := events.filter fun e => !selected e
    .ok (kept, events.length - kept.length)

/-- Blocks an entity; one that is not null may be blocked only once. -/
def insertBlock (entity : Value) (s : Session) : Except Fault Nat × Session :=
  s.writeBlocks fun blocks =>
    match entity.toCell? with
    | none => .ok (blocks ++ [none], 1)
    | some e => if blocks.contains (some e) then .error .duplicateBlock else .ok (blocks ++ [some e], 1)

/-- Unblocks an entity and returns how many rows were removed; null never matches. -/
def deleteBlock (entity : Value) (s : Session) : Except Fault Nat × Session :=
  s.writeBlocks fun blocks =>
    match entity.toCell? with
    | none => .ok (blocks, 0)
    | some e =>
        let kept := blocks.filter fun b => b ≠ some e
        .ok (kept, blocks.length - kept.length)

/-- Removes a table. -/
def drop (table : TableName) (s : Session) : Except Fault Unit × Session :=
  match table with
  | .events =>
      if s.tables.events.isNone then (.error (.noSuchTable .events), s)
      else s.write fun t => .ok ({ t with events := none }, ())
  | .blocks =>
      if s.tables.blocks.isNone then (.error (.noSuchTable .blocks), s)
      else s.write fun t => .ok ({ t with blocks := none }, ())
  | .reference =>
      if s.reference.isNone then (.error (.noSuchTable .reference), s)
      else if s.limits.queryOnly then (.error .readOnly, s)
      else (.ok (), { s with reference := none })

/-- Adds the tables that are missing. -/
def createSchema (s : Session) : Except Fault Unit × Session :=
  if s.tables.events.isSome ∧ s.tables.blocks.isSome then (.ok (), s.fixView)
  else s.write fun t => .ok (t.withSchema, ())

/-- Compacts the database, which keeps every row; no transaction may be open. -/
def compact (s : Session) : Except Fault Unit × Session :=
  if s.inTransaction then (.error .compactInTransaction, s)
  else s.write fun t => .ok (t, ())

/-! ### The reference set -/

/-- Makes the temporary table and empties it. -/
def clearReference (s : Session) : Except Fault Session :=
  if s.limits.queryOnly then .error .readOnly else .ok { s with reference := some [] }

/-- The members of a list of ids in ascending order and without repetition. -/
def distinctIds (ids : List Int) : List Int :=
  (ids.mergeSort (· ≤ ·)).foldr
    (fun x rest => if rest.head? = some x then rest else x :: rest) []

/-- Adds ids to the temporary table. -/
def addReference (ids : List Int) (s : Session) : Session :=
  { s with reference := s.reference.map fun old => distinctIds (old ++ ids) }

/-- The ids of the temporary table. -/
def getReference (s : Session) : Except Fault (List Int) :=
  s.reference.elim (.error (.noSuchTable .reference)) .ok

/-! ### Other connections -/

/-- Logs rows on another connection to the same database, which does not wait: it is refused while the
session has written, and otherwise commits at once. -/
def insertElsewhere (rows : List NewEvent) (s : Session) : Except Fault Nat × Session :=
  match s.committed.events with
  | none => (.error (.noSuchTable .events), s)
  | some events =>
      if (s.transaction.map (·.writing)).getD false then (.error .locked, s)
      else
        match rows.mapM (NewEvent.stored s.now) with
        | .error e => (.error e, s)
        | .ok new =>
            (.ok new.length,
              { s with
                committed := { s.committed with events := some (events ++ new) }
                transaction :=
                  s.transaction.map fun t =>
                    { t with overtaken := t.overtaken || (t.view.isSome && !new.isEmpty) } })

/-! ### Questions -/

/-- Whether a value names an address in a local network, as a statement computes it. -/
def isLocalValue (v : Value) (s : Session) : Except Fault Bool :=
  match v.bound with
  | .null => .ok false
  | .integer _ => .error (.argumentType .integer)
  | .real _ => .error (.argumentType .real)
  | .text t => .ok (Block.holdsLogged s.localNetworks t)
  | .bytes _ => .error (.argumentType .blob)

end Session
end Store
end AccessAudit
