import AccessAudit.Directory.Reference
import AccessAudit.Report
import AccessAudit.Store.Disk
import AccessAudit.Task.Runner

/-!
# An audit

An audit opens a session on a database, loads the reference set, works through the tasks, and closes the
session.  Only a session that cannot be opened is a failure; everything else that fails is told in the
report.
-/

namespace AccessAudit

/-- What an audit leaves behind. -/
structure Audit (σ : Type) where
  report : Report
  context : Context σ
  disk : Store.Disk

namespace Audit

variable {σ : Type}

/-- Runs an audit of the database at a path.  `accounts` are those of the directory, if one is
configured; the report is begun at a reading of the computing time. -/
def run (config : Configuration) (path : String) (cache : Cache σ)
    (accounts : Option (Except Fault (List Int))) (disk : Store.Disk) (now : Int) (cpu : CpuTime) :
    Except Fault (Audit σ) :=
  match disk.openSession path config.localNetworks now with
  | .error f => .error f
  | .ok (c, disk) =>
      let (loaded, state) := Directory.loadForRun config accounts (c.session, { cache := cache })
      let (sections, (s, context)) := Task.runAll config Task.sequence state
      .ok
        { report := ((Report.start config now cpu).append loaded).append sections
          context := context
          disk := disk.close { c with session := s } }

end Audit
end AccessAudit
