import AccessAudit.Task.DailyCount
import AccessAudit.Task.Maintenance
import AccessAudit.Task.TopCounts

/-!
# Running tasks

The tasks of a run in their order, the scope in which each works, and what becomes of a task that
fails: one line of the report tells of it, and the next task follows.
-/

namespace AccessAudit

open Store (Session)

/-- A task. -/
inductive Task
  | purging
  | dailyCounting
  | ranking
  | compacting
  deriving Repr, DecidableEq

namespace Task

variable {σ : Type}

/-- The tasks of a whole run. -/
def sequence : List Task :=
  [.purging, .dailyCounting, .ranking, .compacting]

/-- The name of a task. -/
def name : Task → String
  | .purging => "pre-maintenance"
  | .dailyCounting => "daily event count"
  | .ranking => "top counts"
  | .compacting => "post-maintenance"

/-- The scope of a task. -/
def mode : Task → Mode
  | .purging => .guardedMutation
  | .dailyCounting | .ranking => .alwaysRollBack
  | .compacting => .autoCommit

/-- Whether a configuration asks for a task. -/
def isEnabled (config : Configuration) : Task → Bool
  | .purging | .compacting => config.maintain
  | .dailyCounting | .ranking => config.report

/-- What a task does, without its scope. -/
def body (config : Configuration) : Task → Reporting σ
  | .purging => removeExpired config
  | .dailyCounting => dailyEventCount
  | .ranking => topCounts config
  | .compacting => compactDatabase

/-- The line of the report about a task that failed. -/
def failureLine (task : Task) (f : Fault) : String :=
  s!"ERROR:  Failed to complete {task.name}: " ++ f.text

/-- The notice about a task that failed. -/
def failureNotice (task : Task) (f : Fault) : Notice :=
  { severity := .error
    target := "iptrack_maint::tasks"
    text :=
      "Task failed action=\"complete\" component=\"task_runner\" task=" ++
        Text.quoted task.name ++ " error=" ++ f.headline }

/-- Runs a task in its scope and returns the sections to be reported. -/
def run (config : Configuration) (task : Task) (state : Session × Context σ) :
    List String × (Session × Context σ) :=
  if !task.isEnabled config then ([], state)
  else
    match Scope.run task.mode config.dryRun (task.body config) state with
    | (.ok sections, after) => (sections, after)
    | (.error f, (s, c)) => ([task.failureLine f], (s, c.note (task.failureNotice f)))

/-- Runs tasks one after the other and returns all sections to be reported. -/
def runAll (config : Configuration) :
    List Task → Session × Context σ → List String × (Session × Context σ)
  | [], state => ([], state)
  | task :: rest, state =>
      let (sections, state) := task.run config state
      let (more, state) := runAll config rest state
      (sections ++ more, state)

end Task
end AccessAudit
