import AccessAudit.Store.Fault
import AccessAudit.Text.Quoted

/-!
# Failures and their contexts

A failure has a cause, and every layer that passes it on may say what it was doing.  It is shown as a
chain of links, outermost first.
-/

namespace AccessAudit

/-- What was being done when something failed. -/
inductive Activity
  | openTransaction
  | commitTransaction
  | rollBackTransaction
  | countEvents
  | countBlocks
  | removeEvents (days : Nat)
  | compactDatabase
  | createSchema
  | enableWriteAhead
  | connect (path : String)
  | readDatabase (path : String)
  | createDatabase (path : String)
  | prepareReference
  | storeReference
  | computeRatios (column : String)
  | runSearch
  | readValue (name value : String)
  deriving Repr, DecidableEq

/-- The wording of an activity that failed. -/
def Activity.text : Activity → String
  | .openTransaction => "Failed to open transaction"
  | .commitTransaction => "Failed to commit transaction"
  | .rollBackTransaction => "Failed to roll back transaction"
  | .countEvents => "Failed to count logged events"
  | .countBlocks => "Failed to count firewall blocks"
  | .removeEvents days => s!"Failed to remove logged events older than {days} day(s)"
  | .compactDatabase => "Failed to vacuum and analyze database"
  | .createSchema => "Failed to create iptracking schema"
  | .enableWriteAhead => "Failed to enable write-ahead logging"
  | .connect path => "Unable to connect to database at " ++ Text.quoted path
  | .readDatabase path => "Unable to read database at " ++ Text.quoted path
  | .createDatabase path => "Failed to create " ++ Text.quoted path
  | .prepareReference => "Failed to prepare reference_uids table"
  | .storeReference => "Failed to store reference user ids"
  | .computeRatios column => "Failed to compute success ratios by " ++ column
  | .runSearch => "Failed to run ldapsearch"
  | .readValue name value => s!"Invalid {name} value '{value}'"

/-- Why something failed. -/
inductive Cause
  /-- A statement of the store failed. -/
  | store (fault : Store.Fault)
  /-- A numeral could not be read. -/
  | numeral (fault : Decimal.NumeralFault)
  /-- The program to be run does not exist. -/
  | missingProgram
  /-- An argument of the program to be run holds the character that ends arguments. -/
  | nulInArgument
  /-- The directory search ended with a status other than success. -/
  | searchExited (status diagnostics : String)
  /-- There is something at the path of a database to be created. -/
  | alreadyExists (path : String)
  /-- Someone outside reported a failure, in links of their own. -/
  | reported (links : List String)
  deriving Repr, DecidableEq

/-- The links of a cause. -/
def Cause.links : Cause → List String
  | .store fault => fault.links
  | .numeral fault => [fault.message]
  | .missingProgram => ["No such file or directory (os error 2)"]
  | .nulInArgument => ["nul byte found in provided data"]
  | .searchExited status diagnostics => [s!"ldapsearch exited with {status}: {diagnostics}"]
  | .alreadyExists path =>
      [Text.quoted path ++ " already exists. Remove it first if you want to reinitialize."]
  | .reported links => links

/-- A failure: what was being done, outermost first, and the cause. -/
structure Fault where
  activities : List Activity := []
  cause : Cause
  deriving Repr, DecidableEq

namespace Fault

/-- A failed statement. -/
def ofStore (fault : Store.Fault) : Fault :=
  { cause := .store fault }

/-- The failure as seen by a layer that was doing something. -/
def within (activity : Activity) (f : Fault) : Fault :=
  { f with activities := activity :: f.activities }

/-- The links of a failure, outermost first. -/
def links (f : Fault) : List String :=
  f.activities.map Activity.text ++ f.cause.links

/-- The whole chain as text. -/
def text (f : Fault) : String :=
  String.intercalate ": " f.links

/-- The outermost link. -/
def headline (f : Fault) : String :=
  f.links.headD ""

@[simp] theorem links_within
    (activity : Activity) (f : Fault) :
    (f.within activity).links = activity.text :: f.links := by
  simp [links, within]

/-- The outcome of a statement, where a failure is named by what was being done. -/
def during {α : Type} (activity : Activity) : Except Store.Fault α → Except Fault α
  | .ok a => .ok a
  | .error e => .error ((ofStore e).within activity)

/-- The outcome of a statement, where nothing more is said about a failure. -/
def plain {α : Type} : Except Store.Fault α → Except Fault α
  | .ok a => .ok a
  | .error e => .error (ofStore e)

end Fault
end AccessAudit
