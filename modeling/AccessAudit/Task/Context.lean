import AccessAudit.Configuration
import AccessAudit.Enrichment.Cache
import AccessAudit.Scope
import AccessAudit.Table

/-!
# What tasks share

The state that the tasks of one run have in common beside the session, the notices they leave in the
log of the program, and the shape of a section of the report.
-/

namespace AccessAudit

open Store (Session)

/-- How serious a notice is. -/
inductive Severity
  | error
  | warn
  deriving Repr, DecidableEq

/-- A line for the log of the program. -/
structure Notice where
  severity : Severity
  /-- The part of the program that speaks, for filtering. -/
  target : String
  text : String
  deriving Repr, DecidableEq

/-- The state that the tasks of one run share. -/
structure Context (σ : Type) where
  cache : Cache σ
  /-- Whether the reference set holds the directory's accounts of this run. -/
  referenceLoaded : Bool := false
  notices : List Notice := []

namespace Context

variable {σ : Type}

/-- The context with a further notice. -/
def note (c : Context σ) (n : Notice) : Context σ :=
  { c with notices := c.notices ++ [n] }

end Context

/-- A report of a run: it reads the session, asks for annotations, and ends in blocks of text. -/
abbrev Reporting (σ : Type) := Work (Context σ) (List String)

/-- The block that stands for an empty result. -/
def noMatchingData : String := "No matching data."

/-- A section: its heading, and then the blocks or one line about the failure. -/
def sectionOf (heading subject : String) : Except Fault (List String) → List String
  | .ok blocks => heading :: blocks
  | .error f => [heading, s!"ERROR:  Failed to produce {subject}: " ++ f.text]

/-- The notice about a section that failed. -/
def sectionNotice (subject : String) (f : Fault) : Notice :=
  { severity := .warn
    target := "iptrack_maint::tasks"
    text :=
      "Sub-report failed action=\"report\" component=\"task_runner\" subject=" ++
        Text.quoted subject ++ " error=" ++ f.headline }

/-- Runs a report as a section; it cannot fail any more. -/
def inSection {σ : Type} (heading subject : String) (report : Reporting σ)
    (state : Session × Context σ) : List String × (Session × Context σ) :=
  match report state with
  | (.ok blocks, after) => (sectionOf heading subject (.ok blocks), after)
  | (.error f, (s, c)) =>
      (sectionOf heading subject (.error f), (s, c.note (sectionNotice subject f)))

/-- An introduction followed by items, one a line. -/
def bulletList (intro : String) (items : List String) : String :=
  items.foldl (fun text item => text ++ "\n        - " ++ item) intro

end AccessAudit
