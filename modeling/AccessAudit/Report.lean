import AccessAudit.Calendar.Date
import AccessAudit.Configuration
import AccessAudit.Double.Fixed

/-!
# The report

A report grows over a run: its header is fixed when it is begun, sections are appended, and a footer
with the computing time used since then is made whenever it is rendered.
-/

namespace AccessAudit

/-- Computing time in microseconds. -/
structure CpuTime where
  user : Nat := 0
  system : Nat := 0
  deriving Repr, DecidableEq

namespace CpuTime

/-- The time that a counter of microseconds shows.  A count below zero is read as whole seconds, of
which none are left, and a positive fraction. -/
def ofCounter (n : Int) : Nat :=
  (n / 1000000).toNat * 1000000 + (n % 1000000).toNat

/-- The time between two readings; zero where the later one is less. -/
def since (later earlier : CpuTime) : CpuTime :=
  ⟨later.user - earlier.user, later.system - earlier.system⟩

/-- Microseconds in seconds: the whole seconds and the fraction, each as a floating-point number. -/
def seconds (micros : Nat) : Double :=
  Double.ofInt (micros / 1000000 : Nat) +
    Double.ofInt (micros % 1000000 * 1000 : Nat) / Double.ofInt 1000000000

end CpuTime

/-- A report under construction. -/
structure Report where
  started : CpuTime
  timestamp : String
  header : String
  sections : List String := []
  deriving Repr, DecidableEq

namespace Report

/-- The lines that tell what was configured. -/
def settings (c : Configuration) : String :=
  "    - " ++ (if c.dryRun then "dry" else "production") ++ "-run selected\n" ++
    (if c.maintain then s!"    - purge records older than {c.purgeDays} day(s)\n" else "") ++
    (if c.report then
      s!"    - limit result lists to {c.topN} record(s)\n" ++
        "    - open_session:auth ratio < " ++ c.threshold.shortestText ++ " considered suspect\n"
    else "")

/-- The parts of a report, or of its body, with an empty line between them. -/
def join (parts : List String) : String :=
  String.intercalate "\n\n" parts

/-- An empty report, begun at a time of day and at a reading of the computing time. -/
def start (c : Configuration) (now : Int) (cpu : CpuTime) : Report :=
  let timestamp := Calendar.minuteText now
  { started := cpu
    timestamp := timestamp
    header :=
      join
        ["\n# iptracking maintenance and reporting run, " ++ timestamp,
          settings c,
          "The following information was generated during the iptracking-maint run:"] }

/-- The report with further sections. -/
def append (r : Report) (sections : List String) : Report :=
  { r with sections := r.sections ++ sections }

/-- Whether nothing was reported. -/
def isEmpty (r : Report) : Bool :=
  r.sections.isEmpty

/-- The line above and below the summary. -/
def rule : String :=
  "    " ++ String.ofList (List.replicate 80 '-')

/-- The summary of the computing time used. -/
def footer (used : CpuTime) : String :=
  let user := CpuTime.seconds used.user
  let system := CpuTime.seconds used.system
  "\n## Summary\n\n" ++ rule ++ "\n      maintenance and reporting completed in " ++
    (user + system).fixedText 6 ++ " s\n      (user: " ++ user.fixedText 6 ++ " s | system: " ++
    system.fixedText 6 ++ " s)\n" ++ rule ++ "\n"

/-- The text of the report at a later reading of the computing time. -/
def render (r : Report) (cpu : CpuTime) : String :=
  join [r.header, join r.sections, footer (cpu.since r.started)]

/-- The subject line under which the report is mailed. -/
def subject (tag : String) (r : Report) : String :=
  "[" ++ tag ++ "] iptracking maintenance and report run, " ++ r.timestamp

end Report
end AccessAudit
