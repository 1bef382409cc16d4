import AccessAudit.Program
import AccessAudit.Proofs.Report
import Mathlib.Control.Monad.Basic

/-!
# How a run ends

A command line that is read takes one of four courses: a database is made, the options are refused, no session
can be opened, or an audit is made and its report delivered.  The course fixes the code of the run and what
it leaves behind: whoever is refused or finds no database has asked nobody and changed nothing, and only a
report with sections and without recipients is printed.
-/

namespace AccessAudit
namespace Program

/-! ### Courses -/

/-- No database could be made. -/
def Uncreated (world : Surroundings) (o : Options) : Prop :=
  o.create = true ∧ ∃ f, world.disk.initDatabase o.database world.now = .error f

/-- The options of an audit make no sense, or they name a registry that cannot be asked. -/
def Refused (domains : Url.Domains) (o : Options) : Prop :=
  o.create = false ∧
    ((∃ f, o.configuration = .error f) ∨
      (o.withoutLookup = false ∧ ∃ f, Registry.baseOf o.registryUrl domains = .error f))

/-- The options make sense, but no session can be opened. -/
def Unopened (world : Surroundings) (o : Options) : Prop :=
  o.create = false ∧ ¬Refused world.domains o ∧
    ∃ config f, o.configuration = .ok config ∧
      world.disk.openSession o.database config.localNetworks world.now = .error f

/-- The audit of a database that options ask for. -/
structure Audited (world : Surroundings) (o : Options) (config : Configuration) (a : Audit Unit) :
    Prop where
  create : o.create = false
  valid : o.configuration = .ok config
  run : ∃ cache, source world o = .ok cache ∧
    Audit.run config o.database cache (o.search?.map fun q => Directory.accountIds q (world.search q))
      world.disk world.now world.started = .ok a

/-- The delivery of an audit's report. -/
def delivery (world : Surroundings) (o : Options) (config : Configuration) (a : Audit Unit) :
    Mail.Delivered :=
  Mail.deliver o.postage config.recipients (world.relay o.postage.host) a.report world.finished world.now

/-- An audit was made, but its report could not be delivered. -/
def Undelivered (world : Surroundings) (o : Options) : Prop :=
  ∃ config a f, Audited world o config a ∧ (delivery world o config a).result = .error f

section Courses

variable {world : Surroundings} {o : Options}

theorem source_of_not_refused
    (hcreate : o.create = false)
    (h : ¬Refused world.domains o) :
    ∃ cache, source world o = .ok cache := by
  unfold source
  by_cases hlookup : o.withoutLookup = true
  · exact ⟨_, if_pos hlookup⟩
  · rw [if_neg hlookup]
    cases hbase : Registry.baseOf o.registryUrl world.domains with
    | ok base => exact ⟨_, rfl⟩
    | error f => exact absurd ⟨hcreate, .inr ⟨by simpa using hlookup, f, hbase⟩⟩ h

theorem auditRun_eq_error
    {σ : Type}
    {config : Configuration}
    {path : String}
    {cache : Cache σ}
    {accounts : Option (Except Fault (List Int))}
    {disk : Store.Disk}
    {now : Int}
    {cpu : CpuTime}
    {f : Fault}
    (h : disk.openSession path config.localNetworks now = .error f) :
    Audit.run config path cache accounts disk now cpu = .error f := by
  unfold Audit.run
  rw [h]

theorem auditRun_eq_ok
    {σ : Type}
    {config : Configuration}
    {path : String}
    {cache : Cache σ}
    {accounts : Option (Except Fault (List Int))}
    {disk : Store.Disk}
    {now : Int}
    {cpu : CpuTime}
    {opened : Store.Connection × Store.Disk}
    (h : disk.openSession path config.localNetworks now = .ok opened) :
    ∃ a, Audit.run config path cache accounts disk now cpu = .ok a := by
  unfold Audit.run
  rw [h]
  exact ⟨_, rfl⟩

/-- The courses that a run can take. -/
theorem course
    (world : Surroundings)
    (o : Options) :
    o.create = true ∨ Refused world.domains o ∨ Unopened world o ∨ ∃ config a, Audited world o config a := by
  by_cases hcreate : o.create = true
  · exact .inl hcreate
  · have hcreate : o.create = false := by simpa using hcreate
    right
    by_cases hrefused : Refused world.domains o
    · exact .inl hrefused
    · right
      obtain ⟨cache, hcache⟩ := source_of_not_refused hcreate hrefused
      cases hconfig : o.configuration with
      | error f => exact absurd ⟨hcreate, .inl ⟨f, hconfig⟩⟩ hrefused
      | ok config =>
          cases hopen : world.disk.openSession o.database config.localNetworks world.now with
          | error f => exact .inl ⟨hcreate, hrefused, config, f, hconfig, hopen⟩
          | ok opened =>
              obtain ⟨a, ha⟩ := auditRun_eq_ok hopen
              exact .inr ⟨config, a, hcreate, hconfig, cache, hcache, ha⟩

/-! ### What a run comes to on each course -/

/-- A refusal depends on nothing but the options and the reader of domains. -/
theorem runWith_refused
    (h : Refused world.domains o) :
    ∃ text, ∀ other : Surroundings, other.domains = world.domains →
      runWith other o = fail other o misconfigured text := by
  obtain ⟨hcreate, ⟨f, hconfig⟩ | ⟨hlookup, f, hbase⟩⟩ := h
  · refine ⟨f.message, fun other _ => ?_⟩
    simp [runWith, hcreate, hconfig]
  · cases hconfig : o.configuration with
    | error f =>
        refine ⟨f.message, fun other _ => ?_⟩
        simp [runWith, hcreate, hconfig]
    | ok config =>
        refine ⟨chain (Registry.baseFaultLinks o.registryUrl f), fun other hdomains => ?_⟩
        simp [runWith, hcreate, hconfig, source, hlookup, hdomains, hbase]

/-- That no session can be opened depends on nothing but the options, the reader of domains, the disk and the
time. -/
theorem runWith_unopened
    (h : Unopened world o) :
    ∃ text, ∀ other : Surroundings, other.domains = world.domains → other.disk = world.disk →
      other.now = world.now → runWith other o = fail other o failure text := by
  obtain ⟨hcreate, hrefused, config, f, hconfig, hopen⟩ := h
  refine ⟨"Unable to connect to database: " ++ f.text, fun other hdomains hdisk hnow => ?_⟩
  rw [← hdomains] at hrefused
  obtain ⟨cache, hcache⟩ := source_of_not_refused hcreate hrefused
  rw [← hdisk, ← hnow] at hopen
  simp [runWith, hcreate, hconfig, hcache, audit, auditRun_eq_error hopen]

theorem runWith_audited
    {config : Configuration}
    {a : Audit Unit}
    (h : Audited world o config a) :
    runWith world o = conclude world o config (if config.report then o.search? else none) a := by
  obtain ⟨hcreate, hconfig, cache, hcache, ha⟩ := h
  simp [runWith, hcreate, hconfig, hcache, audit, ha]

end Courses

/-! ### Deliveries -/

section Delivery

variable {world : Surroundings} {o : Options} {config : Configuration} {a : Audit Unit}

theorem delivery_printed
    (hsections : a.report.sections ≠ [])
    (hrecipients : config.recipients = []) :
    delivery world o config a =
      { result := .ok .printed, printed := a.report.render world.finished ++ "\n" } := by
  have hfull : a.report.isEmpty = false := by simpa [Report.isEmpty] using hsections
  simp [delivery, Mail.deliver, hfull, hrecipients]

/-- A report that has no sections, or that somebody is to receive, is not printed. -/
theorem printed_delivery_eq
    (h : a.report.sections = [] ∨ config.recipients ≠ []) :
    (delivery world o config a).printed = "" := by
  unfold delivery Mail.deliver
  by_cases hempty : a.report.isEmpty = true
  · rw [if_pos hempty]
  · have hrecipients : ¬config.recipients.isEmpty = true := by
      refine mt List.isEmpty_iff.mp (h.resolve_left fun hnone => hempty ?_)
      rw [Report.isEmpty, hnone]
      rfl
    rw [if_neg hempty, if_neg hrecipients]
    split
    · rfl
    · split
      · rfl
      · rfl

theorem code_conclude
    (searched : Option Directory.Search) :
    (conclude world o config searched a).code = success ∧
        (∀ f, (delivery world o config a).result ≠ .error f) ∨
      (conclude world o config searched a).code = failure ∧
        ∃ f, (delivery world o config a).result = .error f := by
  unfold conclude delivery
  dsimp only
  split
  · next hresult => exact .inl ⟨rfl, fun f => by simp [hresult]⟩
  · next f hresult => exact .inr ⟨rfl, f, hresult⟩

theorem printed_conclude
    (searched : Option Directory.Search) :
    (conclude world o config searched a).printed = (delivery world o config a).printed := by
  rfl

end Delivery

/-! ### Runs -/

/-- Nothing is printed, and nobody outside is asked or told anything, whatever he would answer. -/
structure Silent (world : Surroundings) (args : List String) : Prop where
  printed : (run world args).printed = ""
  searched : (run world args).searched = none
  told : (run world args).told = []
  alone : ∀ search serve relay,
    run { world with search := search, serve := serve, relay := relay } args = run world args

section Runs

variable {world : Surroundings} {args : List String} {o : Options}

theorem run_eq
    (hparse : Options.parse world.environment args = .ok o)
    {other : Surroundings}
    (hother : other.environment = world.environment) :
    run other args = runWith other o := by
  unfold run
  rw [hother, hparse]

theorem silent_of_eq
    {e : Ending}
    (h : ∀ search serve relay,
      run { world with search := search, serve := serve, relay := relay } args = e)
    (hprinted : e.printed = "")
    (hsearched : e.searched = none)
    (htold : e.told = []) :
    Silent world args := by
  have hrun : run world args = e := h world.search world.serve world.relay
  constructor
  · rw [hrun, hprinted]
  · rw [hrun, hsearched]
  · rw [hrun, htold]
  · intro search serve relay
    rw [hrun, h]

/-- A refused run opens no database either: whatever stands on the disk, it ends in the same way. -/
theorem silent_of_refused
    (hparse : Options.parse world.environment args = .ok o)
    (h : Refused world.domains o) :
    Silent world args ∧ (run world args).code = misconfigured ∧
      ∀ disk, run { world with disk := disk } args = { run world args with disk := disk } := by
  obtain ⟨text, hrun⟩ := runWith_refused h
  have hend {other : Surroundings} (hother : other.environment = world.environment)
      (hdomains : other.domains = world.domains) :
      run other args = fail other o misconfigured text :=
    (run_eq hparse hother).trans (hrun other hdomains)
  have hworld : run world args = fail world o misconfigured text := hend rfl rfl
  refine ⟨?_, congrArg Ending.code hworld, ?_⟩
  · have halone (search serve relay) :
        run { world with search := search, serve := serve, relay := relay } args =
          fail world o misconfigured text :=
      hend rfl rfl
    exact silent_of_eq halone rfl rfl rfl
  · intro disk
    rw [hworld]
    exact hend rfl rfl

theorem silent_of_unopened
    (hparse : Options.parse world.environment args = .ok o)
    (h : Unopened world o) :
    Silent world args ∧ (run world args).code = failure ∧ (run world args).disk = world.disk := by
  obtain ⟨text, hrun⟩ := runWith_unopened h
  have halone (search serve relay) :
      run { world with search := search, serve := serve, relay := relay } args =
        fail world o failure text := by
    refine (run_eq hparse ?_).trans (hrun _ rfl rfl rfl)
    rfl
  have hworld := halone world.search world.serve world.relay
  exact ⟨silent_of_eq halone rfl rfl rfl, congrArg Ending.code hworld, congrArg Ending.disk hworld⟩

/-- Making a database depends on nothing but its path, the disk and the time. -/
theorem silent_of_create
    (hparse : Options.parse world.environment args = .ok o)
    (h : o.create = true) :
    Silent world args ∧
      ((∃ disk, world.disk.initDatabase o.database world.now = .ok disk ∧
          (run world args).code = success ∧ (run world args).disk = disk) ∨
        (∃ f, world.disk.initDatabase o.database world.now = .error f) ∧
          (run world args).code = failure ∧ (run world args).disk = world.disk) := by
  have halone (search serve relay) :
      run { world with search := search, serve := serve, relay := relay } args = create world o := by
    refine (run_eq hparse ?_).trans (if_pos h)
    rfl
  have hworld : run world args = create world o := halone world.search world.serve world.relay
  rw [hworld]
  cases hmade : world.disk.initDatabase o.database world.now with
  | ok disk =>
      have hcreate : create world o = { code := success, disk := disk } := by
        simp only [create, hmade]
      rw [hcreate] at halone ⊢
      exact ⟨silent_of_eq halone rfl rfl rfl, .inl ⟨disk, rfl, rfl, rfl⟩⟩
  | error f =>
      have hcreate : create world o = fail world o failure f.text := by
        simp only [create, hmade]
      rw [hcreate] at halone ⊢
      exact ⟨silent_of_eq halone rfl rfl rfl, .inr ⟨⟨f, rfl⟩, rfl, rfl⟩⟩

theorem run_of_audited
    (hparse : Options.parse world.environment args = .ok o)
    {config : Configuration}
    {a : Audit Unit}
    (h : Audited world o config a) :
    run world args = conclude world o config (if config.report then o.search? else none) a :=
  (run_eq hparse rfl).trans (runWith_audited h)

/-- A run fails, or it is refused, only for its reasons. -/
theorem code_cases
    (hparse : Options.parse world.environment args = .ok o) :
    (run world args).code = success ∨
      ((run world args).code = failure ∧ (Uncreated world o ∨ Unopened world o ∨ Undelivered world o)) ∨
      ((run world args).code = misconfigured ∧ Refused world.domains o) := by
  rcases course world o with hcreate | hrefused | hunopened | ⟨config, a, haudit⟩
  · obtain ⟨-, ⟨disk, -, hsuccess, -⟩ | ⟨hmade, hfailure, -⟩⟩ := silent_of_create hparse hcreate
    · exact .inl hsuccess
    · exact .inr (.inl ⟨hfailure, .inl ⟨hcreate, hmade⟩⟩)
  · exact .inr (.inr ⟨(silent_of_refused hparse hrefused).2.1, hrefused⟩)
  · exact .inr (.inl ⟨(silent_of_unopened hparse hunopened).2.1, .inr (.inl hunopened)⟩)
  · rw [run_of_audited hparse haudit]
    rcases code_conclude _ with ⟨hsuccess, -⟩ | ⟨hfailure, f, hresult⟩
    · exact .inl hsuccess
    · exact .inr (.inl ⟨hfailure, .inr (.inr ⟨config, a, f, haudit, hresult⟩)⟩)

/-- For each of these reasons a run fails. -/
theorem code_of_failed
    (hparse : Options.parse world.environment args = .ok o)
    (h : Uncreated world o ∨ Unopened world o ∨ Undelivered world o) :
    (run world args).code = failure := by
  rcases h with ⟨hcreate, f, hmade⟩ | hunopened | ⟨config, a, f, haudit, hresult⟩
  · obtain ⟨-, ⟨disk, hdisk, -, -⟩ | ⟨-, hfailure, -⟩⟩ := silent_of_create hparse hcreate
    · cases hmade.symm.trans hdisk
    · exact hfailure
  · exact (silent_of_unopened hparse hunopened).2.1
  · rw [run_of_audited hparse haudit]
    rcases code_conclude _ with ⟨-, hdelivered⟩ | ⟨hfailure, -⟩
    · exact absurd hresult (hdelivered f)
    · exact hfailure

/-- A report with sections and without recipients is printed once, and the run succeeds. -/
theorem printed_of_audited
    (hparse : Options.parse world.environment args = .ok o)
    {config : Configuration}
    {a : Audit Unit}
    (h : Audited world o config a)
    (hsections : a.report.sections ≠ [])
    (hrecipients : config.recipients = []) :
    (run world args).code = success ∧
      (run world args).printed = a.report.render world.finished ++ "\n" := by
  rw [run_of_audited hparse h, printed_conclude]
  constructor
  · rcases code_conclude _ with ⟨hsuccess, -⟩ | ⟨-, f, hresult⟩
    · exact hsuccess
    · rw [delivery_printed hsections hrecipients] at hresult
      cases hresult
  · rw [delivery_printed hsections hrecipients]

/-- The report of an audit is begun with the run. -/
theorem report_of_audited
    {config : Configuration}
    {a : Audit Unit}
    (h : Audited world o config a) :
    a.report.header = Report.heading config world.now ∧ a.report.started = world.started := by
  obtain ⟨-, -, cache, -, ha⟩ := h
  unfold Audit.run at ha
  split at ha
  · cases ha
  · cases ha
    exact ⟨Report.header_start config world.now world.started, rfl⟩

/-- What is printed of an audit: the header, the sections in order and the summary, and a line end. -/
theorem printed_says
    (hparse : Options.parse world.environment args = .ok o)
    {config : Configuration}
    {a : Audit Unit}
    (h : Audited world o config a)
    (hsections : a.report.sections ≠ [])
    (hrecipients : config.recipients = []) :
    ∃ body, Report.Body a.report.sections body ∧
      (run world args).printed =
        Report.heading config world.now ++ "\n\n" ++ body ++ "\n\n" ++
          Report.summary (world.finished.since world.started) ++ "\n" := by
  obtain ⟨hheader, hstarted⟩ := report_of_audited h
  obtain ⟨body, hbody, htext⟩ := a.report.render_says world.finished
  refine ⟨body, hbody, ?_⟩
  rw [(printed_of_audited hparse h hsections hrecipients).2, htext, hheader, hstarted]

theorem printed_ne_iff
    (hparse : Options.parse world.environment args = .ok o) :
    (run world args).printed ≠ "" ↔
      ∃ config a, Audited world o config a ∧ a.report.sections ≠ [] ∧ config.recipients = [] := by
  constructor
  · intro hprinted
    rcases course world o with hcreate | hrefused | hunopened | ⟨config, a, haudit⟩
    · exact absurd (silent_of_create hparse hcreate).1.printed hprinted
    · exact absurd (silent_of_refused hparse hrefused).1.printed hprinted
    · exact absurd (silent_of_unopened hparse hunopened).1.printed hprinted
    · rw [run_of_audited hparse haudit, printed_conclude] at hprinted
      refine ⟨config, a, haudit, fun hnone => hprinted (printed_delivery_eq (.inl hnone)), ?_⟩
      exact Classical.byContradiction fun hsome => hprinted (printed_delivery_eq (.inr hsome))
  · rintro ⟨config, a, haudit, hsections, hrecipients⟩ hnone
    rw [(printed_of_audited hparse haudit hsections hrecipients).2] at hnone
    have hline := congrArg String.toList hnone
    simp at hline

end Runs

/-- **How a run ends.**  Let a command line be read.  The code of the run is 22 if and only if an audit is
asked for and its options are refused; it is 1 if and only if no database could be made, no session could be
opened or the report could not be delivered; otherwise it is 0, whatever became of the tasks.  A refused run and one
without a session print nothing, ask and tell nobody outside, and leave the disk as it is; a refused run does
not even look at it.  Something is printed if and only if the audit has a report with sections and without
recipients, and then it is that report, and the run succeeds.  A run that makes a database prints nothing and
asks and tells nobody either; what it comes to is what making the database comes to, whatever else the options
say. -/
theorem run_ends
    (world : Surroundings)
    (args : List String)
    (o : Options)
    (hparse : Options.parse world.environment args = .ok o) :
    let e := run world args
    (e.code = 22 ↔ Refused world.domains o) ∧
    (e.code = 1 ↔ Uncreated world o ∨ Unopened world o ∨ Undelivered world o) ∧
    (e.code = 0 ↔
      ¬Refused world.domains o ∧ ¬(Uncreated world o ∨ Unopened world o ∨ Undelivered world o)) ∧
    (Refused world.domains o → Silent world args ∧
      ∀ disk, run { world with disk := disk } args = { e with disk := disk }) ∧
    (Unopened world o → Silent world args ∧ e.disk = world.disk) ∧
    (e.printed ≠ "" ↔
      ∃ config a, Audited world o config a ∧ a.report.sections ≠ [] ∧ config.recipients = []) ∧
    (∀ config a, Audited world o config a → a.report.sections ≠ [] → config.recipients = [] →
      e.code = 0 ∧ e.printed = a.report.render world.finished ++ "\n") ∧
    (o.create = true → Silent world args ∧
      ((∃ disk, world.disk.initDatabase o.database world.now = .ok disk ∧
          e.code = 0 ∧ e.disk = disk) ∨
        (∃ f, world.disk.initDatabase o.database world.now = .error f) ∧
          e.code = 1 ∧ e.disk = world.disk)) := by
  intro e
  have hcases := code_cases hparse
  have hrefused : e.code = 22 ↔ Refused world.domains o := by
    constructor
    · intro hcode
      rcases hcases with hsuccess | ⟨hfailure, -⟩ | ⟨-, hrefused⟩
      · cases hsuccess.symm.trans hcode
      · cases hfailure.symm.trans hcode
      · exact hrefused
    · intro h
      exact (silent_of_refused hparse h).2.1
  have hfailed : e.code = 1 ↔ Uncreated world o ∨ Unopened world o ∨ Undelivered world o := by
    constructor
    · intro hcode
      rcases hcases with hsuccess | ⟨-, hfailed⟩ | ⟨hmisconfigured, -⟩
      · cases hsuccess.symm.trans hcode
      · exact hfailed
      · cases hmisconfigured.symm.trans hcode
    · exact code_of_failed hparse
  refine ⟨hrefused, hfailed, ?_, ?_, ?_, printed_ne_iff hparse, ?_, ?_⟩
  · rw [← hrefused, ← hfailed]
    constructor
    · intro hcode
      rw [hcode]
      decide
    · rintro ⟨hmisconfigured, hfailure⟩
      rcases hcases with hsuccess | ⟨hcode, -⟩ | ⟨hcode, -⟩
      · exact hsuccess
      · exact absurd hcode hfailure
      · exact absurd hcode hmisconfigured
  · intro h
    obtain ⟨hsilent, -, hdisk⟩ := silent_of_refused hparse h
    exact ⟨hsilent, hdisk⟩
  · intro h
    obtain ⟨hsilent, -, hdisk⟩ := silent_of_unopened hparse h
    exact ⟨hsilent, hdisk⟩
  · intro config a haudit hsections hrecipients
    exact printed_of_audited hparse haudit hsections hrecipients
  · exact silent_of_create hparse

/-- A disk with a database without tables, and nobody outside. -/
def bareWorld : Surroundings :=
  { now := 1710892800
    disk := ⟨[(["bare.db"], .database ⟨none, none⟩ true)]⟩
    search := fun _ => .missing
    serve := fun _ => .failed
    relay := fun _ => { unreachable := some "refused", react := fun _ => .broken "closed" } }

/-- Options to report on it without lookups. -/
def bareOptions : Options :=
  { skipMaintenance := true, withoutLookup := true, database := "/bare.db" }

/-- Every task fails, and the run succeeds and prints the report that tells so. -/
theorem failedTasks_printed :
    let args := ["-m", "--no-lookup", "-d", "/bare.db"]
    let missing : Fault := { activities := [.countEvents], cause := .store (.noSuchTable .events) }
    Options.parse bareWorld.environment args = .ok bareOptions ∧
    ∃ a, Audited bareWorld bareOptions { maintain := false } a ∧
      a.report.sections =
        [Task.dailyCounting.failureLine missing, Task.ranking.failureLine missing] ∧
      (run bareWorld args).code = 0 ∧
      (run bareWorld args).printed = a.report.render bareWorld.finished ++ "\n" := by
  intro args missing
  have hparse : Options.parse bareWorld.environment args = .ok bareOptions := rfl
  have hconfig : bareOptions.configuration = .ok { maintain := false } := by decide +kernel
  let cache : Cache Unit := { ask := fun s _ => (.nothing, s), source := () }
  let audited := Audit.run { maintain := false } "/bare.db" cache none bareWorld.disk bareWorld.now
    bareWorld.started
  obtain ⟨a, ha⟩ : ∃ a, audited = .ok a := auditRun_eq_ok rfl
  have haudit : Audited bareWorld bareOptions { maintain := false } a :=
    ⟨rfl, hconfig, cache, rfl, ha⟩
  have hsections : a.report.sections =
      [Task.dailyCounting.failureLine missing, Task.ranking.failureLine missing] := by
    have hrun : (audited.toOption.map fun a => a.report.sections) =
        some [Task.dailyCounting.failureLine missing, Task.ranking.failureLine missing] := by
      decide +kernel
    rw [ha] at hrun
    exact Option.some.inj hrun
  obtain ⟨-, -, -, -, -, -, hprinted, -⟩ := run_ends bareWorld args bareOptions hparse
  exact ⟨hparse, a, haudit, hsections, hprinted _ a haudit (by simp [hsections]) rfl⟩

end Program
end AccessAudit
