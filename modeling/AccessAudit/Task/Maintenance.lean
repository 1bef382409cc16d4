import AccessAudit.Task.Context

/-!
# Maintenance

Removing events that are older than a number of days, and compacting the database.  An event is older
if its date comes before the text of the day of the limit; bytes come before no text.
-/

namespace AccessAudit
namespace Task

variable {σ : Type}

/-- Whether an event comes before the day that lies `days` days before the present; without such a day
no event does. -/
def isExpired (now : Int) (days : Nat) (e : Store.Event) : Bool :=
  match Calendar.cutoff? now days with
  | some d => e.date < (d.text : Store.Cell)
  | none => false

/-- Removes the expired events and reports their number. -/
def removeExpired (config : Configuration) : Reporting σ := fun (s, c) =>
  let days := config.purgeDays
  let (removed, s) := s.deleteEvents (isExpired s.now days)
  let outcome := do
    let count ← Fault.during (.removeEvents days) removed
    .ok ["## Event removal", s!"Removed logged events older than {days} day(s): {count} tuples"]
  (outcome, (s, c))

/-- Compacts the database. -/
def compactDatabase : Reporting σ := fun (s, c) =>
  let (done, s) := s.compact
  let outcome := do
    Fault.during .compactDatabase done
    .ok ["## Database compaction", "Vacuum and statistics refresh completed."]
  (outcome, (s, c))

end Task
end AccessAudit
