import AccessAudit.Task.Blocks
import AccessAudit.Task.OpenSessions
import AccessAudit.Task.ReferenceAccounts
import AccessAudit.Task.SuccessRate
import AccessAudit.Task.Volume

/-!
# Top counts

All rankings of the log, the blocks and the countries, as sections in a fixed order.  Each stands for
itself: where one fails, its section says so and the others follow.  With an empty log only the blocks
and the countries are shown, and those only if something is blocked.
-/

namespace AccessAudit
namespace Task

open Store (Session)

variable {σ : Type}

/-- A part of the top counts. -/
inductive Part
  | topSources
  | topUids
  | sourcesBySuccess
  | uidsBySuccess
  | openForeignSessions
  | foreignByAccount
  | firewallBlocks
  | countrySummary
  deriving Repr, DecidableEq

namespace Part

/-- The parts in their order. -/
def all : List Part :=
  [.topSources, .topUids, .sourcesBySuccess, .uidsBySuccess, .openForeignSessions,
    .foreignByAccount, .firewallBlocks, .countrySummary]

/-- The heading of a part's section. -/
def heading : Part → String
  | .topSources => "## Top IPs by event count"
  | .topUids => "## Top UIDs by event count"
  | .sourcesBySuccess => "## Top IPs by session success rate"
  | .uidsBySuccess => "## Top UIDs by session success rate"
  | .openForeignSessions => "## Top (possibly) open sessions from foreign IPs"
  | .foreignByAccount => "## Foreign IPs used by directory accounts"
  | .firewallBlocks => "## Active firewall blocks"
  | .countrySummary => "## Countries of origin"

/-- What a part is called where it failed. -/
def subject : Part → String
  | .topSources => "top IPs by event count"
  | .topUids => "top uids by event count"
  | .sourcesBySuccess => "top IPs by session success rate"
  | .uidsBySuccess => "top uids by session success rate"
  | .openForeignSessions => "top (possibly) open sessions from foreign IPs"
  | .foreignByAccount => "foreign IPs used by directory accounts"
  | .firewallBlocks => "active firewall blocks"
  | .countrySummary => "countries of origin"

/-- Whether a part is about the log. -/
def readsLog : Part → Bool
  | .firewallBlocks | .countrySummary => false
  | _ => true

/-- The report of a part. -/
def report (config : Configuration) : Part → Reporting σ
  | .topSources => Task.topSources config
  | .topUids => Task.topUids config
  | .sourcesBySuccess => Task.sourcesBySuccess config
  | .uidsBySuccess => Task.uidsBySuccess config
  | .openForeignSessions => Task.openForeignSessions config
  | .foreignByAccount => Task.foreignByAccount config
  | .firewallBlocks => Task.firewallBlocks
  | .countrySummary => Task.countrySummary

end Part

/-- The sections of several parts, one after the other. -/
def sectionsOf (config : Configuration) :
    List Part → Session × Context σ → List String × (Session × Context σ)
  | [], state => ([], state)
  | part :: rest, state =>
      let (blocks, state) := inSection part.heading part.subject (part.report config) state
      let (more, state) := sectionsOf config rest state
      (blocks ++ more, state)

/-- All parts for which there is something to report. -/
def topCounts (config : Configuration) : Reporting σ := fun (s, c) =>
  match countEvents s with
  | (.error f, s) => (.error f, (s, c))
  | (.ok 0, s) =>
      match countBlocks s with
      | (.error f, s) => (.error f, (s, c))
      | (.ok 0, s) => (.ok [], (s, c))
      | (.ok _, s) =>
          let (blocks, state) := sectionsOf config (Part.all.filter fun p => !p.readsLog) (s, c)
          (.ok blocks, state)
  | (.ok _, s) =>
      let (blocks, state) := sectionsOf config Part.all (s, c)
      (.ok blocks, state)

end Task
end AccessAudit
