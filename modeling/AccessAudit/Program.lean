import AccessAudit.Audit
import AccessAudit.CommandLine.Options
import AccessAudit.Logging.Filter

/-!
# The program

What the program does with its command line: it makes a database, or it audits one and prints or mails
the report.  How it ends, what it prints, what it logs and whom it asked are all part of the result.
-/

namespace AccessAudit

/-- Who looks into a database from outside is shown the texts of its cells. -/
instance : CoeOut Store.Cell String := ⟨Store.Cell.toText⟩

/-- What surrounds the program. -/
structure Surroundings where
  /-- The time, in seconds since the start of 1970. -/
  now : Int
  environment : List (String × String) := []
  disk : Store.Disk
  /-- What the search program does. -/
  search : Directory.Search → Directory.SearchReply
  /-- What a request to a registry comes to. -/
  serve : Url → Registry.Exchange
  /-- The reader of the domains in addresses of resources. -/
  domains : Url.Domains := Url.Domain.toAscii?
  /-- The relay on a host. -/
  relay : String → Mail.Relay
  /-- The computing time when the program starts and when it renders its report. -/
  started : CpuTime := {}
  finished : CpuTime := {}

/-- How the program ended. -/
structure Ending where
  code : Nat
  printed : String := ""
  /-- The lines of the log. -/
  log : List String := []
  disk : Store.Disk
  /-- What the directory was searched for. -/
  searched : Option Directory.Search := none
  /-- What the relay was told. -/
  told : List Mail.Command := []

namespace Program

/-- The name of the program and its version. -/
def versionLine : String := "iptrack-maint 0.2.0\n"

/-- The code of a run that succeeded. -/
def success : Nat := 0

/-- The code of a run that failed. -/
def failure : Nat := 1

/-- The code for a command line that is refused. -/
def usage : Nat := 2

/-- The code for options that make no sense. -/
def misconfigured : Nat := 22

/-- A notice of the program about a failure. -/
def complaint (text : String) : Notice :=
  { severity := .error, target := "iptrack_maint", text := text }

/-- A chain of links as text. -/
def chain (links : List String) : String :=
  String.intercalate ": " links

/-- How a command line that is not read ends the program. -/
def refuse (world : Surroundings) : CommandLine.OptionFault → Ending
  | .help => { code := success, disk := world.disk }
  | .version => { code := success, printed := versionLine, disk := world.disk }
  | _ => { code := usage, disk := world.disk }

/-- The lines of the log for notices. -/
def logOf (world : Surroundings) (o : Options) (notices : List Notice) : List String :=
  (Logging.shown (world.environment.lookup "RUST_LOG") o.verbose o.quiet notices).map
    (Logging.line world.now)

/-- The end of a run that failed. -/
def fail (world : Surroundings) (o : Options) (code : Nat) (text : String) : Ending :=
  { code := code, disk := world.disk, log := logOf world o [complaint text] }

/-- What is asked about addresses: nothing, or the registry at a base. -/
def source (world : Surroundings) (o : Options) : Except (List String) (Cache Unit) :=
  if o.withoutLookup then .ok { ask := fun s _ => (.nothing, s), source := () }
  else
    match Registry.baseOf o.registryUrl world.domains with
    | .error f => .error (Registry.baseFaultLinks o.registryUrl f)
    | .ok base =>
        .ok
          { ask := fun s a => (Registry.answer (Registry.lookup world.serve base world.domains a), s)
            source := () }

/-- Makes a database. -/
def create (world : Surroundings) (o : Options) : Ending :=
  match world.disk.initDatabase o.database world.now with
  | .ok disk => { code := success, disk := disk }
  | .error f => fail world o failure f.text

/-- Delivers the report of an audit. -/
def conclude (world : Surroundings) (o : Options) (config : Configuration)
    (searched : Option Directory.Search) (a : Audit Unit) : Ending :=
  let d :=
    Mail.deliver o.postage config.recipients (world.relay o.postage.host) a.report world.finished
      world.now
  let (code, complaints) :=
    match d.result with
    | .ok _ => (success, [])
    | .error f => (failure, [complaint (chain f.links)])
  { code := code
    printed := d.printed
    log := logOf world o (a.context.notices ++ complaints)
    disk := a.disk
    searched := searched
    told := d.told }

/-- Audits a database and delivers the report. -/
def audit (world : Surroundings) (o : Options) (config : Configuration) (cache : Cache Unit) :
    Ending :=
  let accounts := o.search?.map fun q => Directory.accountIds q (world.search q)
  match Audit.run config o.database cache accounts world.disk world.now world.started with
  | .error f => fail world o failure ("Unable to connect to database: " ++ f.text)
  | .ok a => conclude world o config (if config.report then o.search? else none) a

/-- Runs the program with options. -/
def runWith (world : Surroundings) (o : Options) : Ending :=
  if o.create then create world o
  else
    match o.configuration with
    | .error f => fail world o misconfigured f.message
    | .ok config =>
        match source world o with
        | .error links => fail world o misconfigured (chain links)
        | .ok cache => audit world o config cache

/-- Runs the program. -/
def run (world : Surroundings) (args : List String) : Ending :=
  match Options.parse world.environment args with
  | .error f => refuse world f
  | .ok o => runWith world o

end Program
end AccessAudit
