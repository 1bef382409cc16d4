import AccessAudit.Decimal.Numeral
import AccessAudit.Text.Utf8

/-!
# Faults of the store

What can go wrong in a statement, with the wording and the code that the store gives it.  A fault is
shown as two links, its own message and the meaning of its code; a value of the wrong type in a row is
found by the reader of the row and has no code; for a text that is none in UTF-8, what is wrong with it is a
link of its own.
-/

namespace AccessAudit
namespace Store

/-- The tables of a session. -/
inductive TableName
  | events
  | blocks
  | reference
  deriving Repr, DecidableEq

/-- The name under which a missing table is reported. -/
def TableName.text : TableName → String
  | .events => "inet_log"
  | .blocks => "block_now"
  | .reference => "temp.reference_uids"

/-- The columns that must not be null. -/
inductive RequiredColumn
  | source
  | kind
  | uid
  | date
  deriving Repr, DecidableEq

/-- The name of a required column. -/
def RequiredColumn.text : RequiredColumn → String
  | .source => "src_ipaddr"
  | .kind => "log_event"
  | .uid => "uid"
  | .date => "log_date"

/-- The types of stored values. -/
inductive ValueType
  | null
  | integer
  | real
  | text
  | blob
  deriving Repr, DecidableEq

/-- The name of a type. -/
def ValueType.name : ValueType → String
  | .null => "Null"
  | .integer => "Integer"
  | .real => "Real"
  | .text => "Text"
  | .blob => "Blob"

/-- Why a statement fails. -/
inductive Fault
  | noSuchTable (table : TableName)
  | required (column : RequiredColumn)
  | unknownKind
  | duplicateBlock
  | readOnly
  | locked
  | alreadyInTransaction
  | nothingToCommit
  | nothingToRollBack
  | compactInTransaction
  | argumentType (type : ValueType)
  | columnType (type : ValueType) (index : Nat) (column : String)
  | noText (index : Nat) (fault : Text.Utf8Fault)
  | cannotOpen (path : String)
  | notADatabase
  | accessNotAllowed (mode : String)
  | noSuchAccess (kind mode : String)
  deriving Repr, DecidableEq

/-- The message of a fault. -/
def Fault.message : Fault → String
  | .noSuchTable table => "no such table: " ++ table.text
  | .required column => "NOT NULL constraint failed: inet_log." ++ column.text
  | .unknownKind =>
      "CHECK constraint failed: log_event IN ('auth', 'open_session', 'close_session')"
  | .duplicateBlock => "UNIQUE constraint failed: block_now.ip_entity"
  | .readOnly => "attempt to write a readonly database"
  | .locked => "database is locked"
  | .alreadyInTransaction => "cannot start a transaction within a transaction"
  | .nothingToCommit => "cannot commit - no transaction is active"
  | .nothingToRollBack => "cannot rollback - no transaction is active"
  | .compactInTransaction => "cannot VACUUM from within a transaction"
  | .argumentType type => s!"Invalid function parameter type {type.name} at index 0"
  | .columnType type index column =>
      s!"Invalid column type {type.name} at index: {index}, name: {column}"
  | .noText index fault =>
      s!"Conversion error from type Text at index: {index}, " ++ fault.message
  | .cannotOpen path => "unable to open database file: " ++ path
  | .notADatabase => "file is not a database"
  | .accessNotAllowed mode => "access mode not allowed: " ++ mode
  | .noSuchAccess kind mode => s!"no such {kind} mode: {mode}"

/-- The meaning of a fault's code. -/
def Fault.code? : Fault → Option String
  | .noSuchTable _ | .alreadyInTransaction | .nothingToCommit | .nothingToRollBack
  | .compactInTransaction | .argumentType _ | .noSuchAccess _ _ =>
      some "Error code 1: SQL error or missing database"
  | .accessNotAllowed _ => some "Error code 3: Access permission denied"
  | .locked => some "Error code 5: The database file is locked"
  | .readOnly => some "Error code 8: Attempt to write a readonly database"
  | .cannotOpen _ => some "Error code 14: Unable to open the database file"
  | .required _ | .unknownKind | .duplicateBlock => some "Error code 19: Abort due to constraint violation"
  | .notADatabase => some "Error code 26: File opened that is not a database file"
  | .columnType _ _ _ | .noText _ _ => none

/-- The links of a fault, outermost first. -/
def Fault.links (f : Fault) : List String :=
  f.message ::
    match f with
    | .noText _ fault => [fault.message]
    | _ => f.code?.toList

end Store
end AccessAudit
