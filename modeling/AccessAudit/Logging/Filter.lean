import AccessAudit.Calendar.Date
import AccessAudit.Task.Context

/-!
# The log of the program

Which notices are shown depends on a level that is chosen on the command line, or on directives in the
environment.  A directive gives a level to every part of the program whose name starts with a given
text; the longest such text decides.  Directives that cannot be read count for nothing, and then the
command line decides.
-/

namespace AccessAudit
namespace Logging

/-- How much is shown. -/
inductive Level
  | off
  | error
  | warn
  | info
  | debug
  | trace
  deriving Repr, DecidableEq

namespace Level

/-- The name of a level. -/
def name : Level → String
  | .off => "off"
  | .error => "error"
  | .warn => "warn"
  | .info => "info"
  | .debug => "debug"
  | .trace => "trace"

/-- All levels, from the one that shows least. -/
def all : List Level :=
  [.off, .error, .warn, .info, .debug, .trace]

/-- The level with a name in any letter case, or with a number. -/
def ofText? (s : List Char) : Option Level :=
  match s with
  | [c] =>
      match Decimal.digitValue? c with
      | some n => all[n]?
      | none => none
  | s => all.find? fun l => l.name.toList = Text.lowerAscii s

/-- Whether a notice is shown at a level. -/
def shows (l : Level) (severity : Severity) : Bool :=
  match l, severity with
  | .off, _ => false
  | .error, .error => true
  | .error, .warn => false
  | _, _ => true

/-- The levels among which the command line chooses. -/
def choices : List Level :=
  [.error, .error, .warn, .info, .debug]

/-- The level for a number of wishes for more and a number of wishes for less. -/
def chosen (verbose quiet : Nat) : Level :=
  (choices[min (1 + verbose - quiet) (choices.length - 1)]?).getD .error

end Level

/-! ### Directives -/

/-- A directive: the start of the names that it applies to, whether it applies only within a task that
has a name of its own, and the level. -/
structure Directive where
  target : List Char := []
  inTask : Bool := false
  level : Level
  deriving Repr, DecidableEq

namespace Directive

/-- A character of the name of a part. -/
def isNameChar (c : Char) : Bool :=
  c.isAlphanum || c == '_' || c == ':' || c == '-' || 128 ≤ c.toNat

/-- The name that a directive applies to, and whether brackets name a task behind it. -/
def readName? (s : List Char) : Option (List Char × Bool) :=
  let name := s.takeWhile isNameChar
  match s.dropWhile isNameChar with
  | [] => if name = [] then none else some (name, false)
  | '[' :: rest => if rest.idxOf? ']' = some (rest.length - 1) ∧ rest ≠ [] then some (name, true) else none
  | _ => none

/-- The directive that a text denotes. -/
def ofText? (s : List Char) : Option Directive :=
  match Level.ofText? s with
  | some l => some { level := l }
  | none => do
      let (front, level) ←
        match Text.splitOnce '=' s with
        | none => some (s, Level.trace)
        | some (front, []) => some (front, Level.trace)
        | some (front, text) => (Level.ofText? text).map fun l => (front, l)
      let (name, inTask) ← readName? front
      return { target := if (Level.ofText? name).isSome then [] else name
               inTask := inTask, level := level }

/-- Directives with commas between them. -/
def list? (text : String) : Option (List Directive) :=
  ((Text.splitAll ',' text.toList).filter (· ≠ [])).mapM fun s => ofText? (Text.trim s)

end Directive

/-! ### Filtering -/

/-- The level for a part of the program: that of the longest name that fits, of which the last counts;
nothing is shown of a part that no directive applies to.  An empty list shows errors. -/
def levelFor (directives : List Directive) (part : String) : Level :=
  if directives = [] then .error
  else
    let fitting := directives.filter fun d => !d.inTask && d.target.isPrefixOf part.toList
    let best := fitting.foldl
      (fun (best : Option Directive) d =>
        match best with
        | none => some d
        | some b => if b.target.length ≤ d.target.length then some d else some b)
      none
    (best.map Directive.level).getD .off

/-- The directives that are in force. -/
def directives (wish : Option String) (verbose quiet : Nat) : List Directive :=
  (wish.bind Directive.list?).getD [{ level := Level.chosen verbose quiet }]

/-- The notices that are shown. -/
def shown (wish : Option String) (verbose quiet : Nat) (notices : List Notice) : List Notice :=
  notices.filter fun n => (levelFor (directives wish verbose quiet) n.target).shows n.severity

/-- A notice as it is shown. -/
def line (now : Int) (n : Notice) : String :=
  Calendar.stampText now ++
    (match n.severity with | .error => " ERROR " | .warn => "  WARN ") ++ n.text

end Logging
end AccessAudit
