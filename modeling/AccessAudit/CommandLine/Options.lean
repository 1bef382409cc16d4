import AccessAudit.CommandLine.Reading
import AccessAudit.Configuration
import AccessAudit.Directory.Search
import AccessAudit.Mail.Delivery
import AccessAudit.Registry.Client

/-!
# Options

The options of a run: what is given on the command line or else in the environment, and otherwise what
goes without saying.  A run is configured by them if its networks and recipients can be read and the
conditions of a configuration hold.
-/

namespace AccessAudit

/-- The options of a run. -/
structure Options where
  verbose : Nat := 0
  quiet : Nat := 0
  production : Bool := false
  skipMaintenance : Bool := false
  skipReports : Bool := false
  purgeDays : Nat := ({} : Configuration).purgeDays
  topN : Nat := ({} : Configuration).topN
  threshold : Double := ({} : Configuration).threshold
  recipients : List String := []
  database : String := "/var/lib/iptracking/iptracking.db"
  localNetworks : List String := Block.defaultLocalTexts
  directoryUri : Option String := none
  directoryBase : Option String := none
  directoryFilter : String := Directory.defaultFilter
  registryUrl : String := Registry.defaultBase
  withoutLookup : Bool := false
  postage : Mail.Postage := {}
  /-- Whether a database is to be made instead of a run. -/
  create : Bool := false
  deriving DecidableEq

namespace Options

open CommandLine

/-- The greatest number of occurrences of a flag that is told. -/
def maxCount : Nat := 255

/-- The number of occurrences of a flag. -/
def countOf (g : Given) (f : Flag) : Nat :=
  min maxCount (g.flags.count f)

/-- The options that are given, in place of those that go without saying. -/
def ofGiven (g : Given) : Options :=
  let standard : Options := {}
  let text (k : Key) (otherwise : String) : String := (g.value? k).getD otherwise
  { verbose := countOf g .verbose
    quiet := countOf g .quiet
    production := g.flags.contains .production
    skipMaintenance := g.flags.contains .skipMaintenance
    skipReports := g.flags.contains .skipReports
    purgeDays := ((g.value? .purgeDays).bind days?).getD standard.purgeDays
    topN := ((g.value? .topN).bind rows?).getD standard.topN
    threshold :=
      ((g.value? .threshold).bind fun t => Double.ofText? t.toList).getD standard.threshold
    recipients := g.valuesOf .recipient
    database := text .database standard.database
    localNetworks :=
      if g.has .localNetwork then g.valuesOf .localNetwork else standard.localNetworks
    directoryUri := g.value? .directoryUri
    directoryBase := g.value? .directoryBase
    directoryFilter := text .directoryFilter standard.directoryFilter
    registryUrl := text .registryUrl standard.registryUrl
    withoutLookup := g.flags.contains .withoutLookup
    postage :=
      { sender := text .sender standard.postage.sender
        host := text .relayHost standard.postage.host
        tag := text .tag standard.postage.tag }
    create := g.flags.contains .create }

/-- The options of a command line in an environment. -/
def parse (environment : List (String × String)) (args : List String) :
    Except OptionFault Options :=
  (readAll environment args).map ofGiven

/-! ### Configuration -/

/-- The network that a text denotes. -/
def readNetwork (text : String) : Except ConfigurationFault Block :=
  (Block.ofText text).mapError (.localNetwork text)

/-- Checks that a text denotes a mailbox. -/
def checkRecipient (text : String) : Except ConfigurationFault Unit :=
  match Mail.Mailbox.ofText text with
  | .ok _ => .ok ()
  | .error fault => .error (.recipient text fault)

/-- The configuration with networks that have been read. -/
def configurationWith (o : Options) (networks : List Block) : Configuration :=
  { dryRun := !o.production
    maintain := !o.skipMaintenance
    report := !o.skipReports
    purgeDays := o.purgeDays
    topN := o.topN
    threshold := o.threshold
    recipients := o.recipients
    localNetworks := networks }

/-- The configuration of a run, or the first reason why there is none: networks are read first, then
recipients, and then the conditions are checked. -/
def configuration (o : Options) : Except ConfigurationFault Configuration := do
  let networks ← o.localNetworks.mapM readNetwork
  o.recipients.forM checkRecipient
  let c := o.configurationWith networks
  c.validate
  return c

/-- What the directory is searched for, if it is. -/
def search? (o : Options) : Option Directory.Search :=
  o.directoryBase.map fun base =>
    { uri := o.directoryUri, base := base, filter := o.directoryFilter }

end Options
end AccessAudit
