import AccessAudit.Decimal.Numeral
import AccessAudit.Double.Reading

/-!
# Switches

What may stand on the command line: flags, which are there or not, and keys, which take a value.  Each
has a long name, and some have a letter.  The value of a key has to be readable as what it stands for.
-/

namespace AccessAudit
namespace CommandLine

/-- A flag. -/
inductive Flag
  | verbose
  | quiet
  | production
  | skipMaintenance
  | skipReports
  | withoutLookup
  | create
  | help
  | version
  deriving Repr, DecidableEq

/-- A key that takes a value. -/
inductive Key
  | purgeDays
  | topN
  | threshold
  | recipient
  | database
  | localNetwork
  | directoryUri
  | directoryBase
  | directoryFilter
  | registryUrl
  | sender
  | relayHost
  | tag
  deriving Repr, DecidableEq

/-- Why a command line is refused, or what is shown instead of a run. -/
inductive OptionFault
  /-- There is no such switch, or a word that belongs to none. -/
  | unknown
  /-- A value cannot be read. -/
  | unreadable
  /-- A key has no value, or an empty one that it does not admit. -/
  | missing
  /-- A switch that may be given once is given again. -/
  | repeated
  /-- A flag is given a value. -/
  | surplus
  | help
  | version
  deriving Repr, DecidableEq

namespace Flag

/-- All flags. -/
def all : List Flag :=
  [.verbose, .quiet, .production, .skipMaintenance, .skipReports, .withoutLookup, .create, .help,
    .version]

/-- The long name of a flag. -/
def name : Flag → String
  | .verbose => "verbose"
  | .quiet => "quiet"
  | .production => "production-run"
  | .skipMaintenance => "skip-maint"
  | .skipReports => "skip-reports"
  | .withoutLookup => "no-lookup"
  | .create => "init-db"
  | .help => "help"
  | .version => "version"

/-- The letter of a flag. -/
def letter? : Flag → Option Char
  | .verbose => some 'v'
  | .quiet => some 'q'
  | .production => some 'n'
  | .skipMaintenance => some 'm'
  | .skipReports => some 'r'
  | .help => some 'h'
  | .version => some 'V'
  | .withoutLookup | .create => none

/-- Whether the occurrences of a flag are counted; any other flag may be given once. -/
def isCounted : Flag → Bool
  | .verbose | .quiet => true
  | _ => false

end Flag

namespace Key

/-- All keys, in the order in which the environment is consulted. -/
def all : List Key :=
  [.purgeDays, .topN, .threshold, .recipient, .database, .localNetwork, .directoryUri,
    .directoryBase, .directoryFilter, .registryUrl, .sender, .relayHost, .tag]

/-- The long name of a key. -/
def name : Key → String
  | .purgeDays => "purge-day-count"
  | .topN => "top-N"
  | .threshold => "success-ratio-thresh"
  | .recipient => "email"
  | .database => "database"
  | .localNetwork => "local-net"
  | .directoryUri => "ldap-uri"
  | .directoryBase => "ldap-base"
  | .directoryFilter => "ldap-filter"
  | .registryUrl => "rdap-url"
  | .sender => "mail-from"
  | .relayHost => "smtp-host"
  | .tag => "subject-tag"

/-- The letter of a key. -/
def letter? : Key → Option Char
  | .purgeDays => some 'p'
  | .topN => some 'N'
  | .threshold => some 's'
  | .recipient => some 'e'
  | .database => some 'd'
  | _ => none

/-- The variable of the environment that stands in for a key. -/
def standIn? : Key → Option String
  | .database => some "IPTRACKING_DB"
  | .directoryUri => some "IPTRACKING_LDAP_URI"
  | .directoryBase => some "IPTRACKING_LDAP_BASE"
  | .registryUrl => some "IPTRACKING_RDAP_URL"
  | .relayHost => some "IPTRACKING_SMTP_HOST"
  | _ => none

/-- Whether a key collects the values that it is given; any other key may be given once. -/
def isCollected : Key → Bool
  | .recipient | .localNetwork => true
  | _ => false

/-- Whether the value of a key may start with a minus sign, if it is a number. -/
def admitsNegative : Key → Bool
  | .threshold => true
  | _ => false

end Key

/-- A flag or a key. -/
inductive Switch
  | flag (f : Flag)
  | key (k : Key)
  deriving Repr, DecidableEq

namespace Switch

/-- All switches. -/
def all : List Switch :=
  Flag.all.map .flag ++ Key.all.map .key

/-- The long name of a switch. -/
def name : Switch → String
  | .flag f => f.name
  | .key k => k.name

/-- The letter of a switch. -/
def letter? : Switch → Option Char
  | .flag f => f.letter?
  | .key k => k.letter?

/-- The switch with a long name. -/
def ofName? (s : List Char) : Option Switch :=
  all.find? fun x => x.name.toList = s

/-- The switch with a letter. -/
def ofLetter? (c : Char) : Option Switch :=
  all.find? fun x => x.letter? = some c

end Switch

/-! ### Values -/

/-- The greatest number of days. -/
def maxDays : Nat := 0xFFFFFFFF

/-- The greatest number of rows. -/
def maxRows : Nat := Decimal.word64Count - 1

/-- The number of days that a text denotes. -/
def days? (text : String) : Option Nat :=
  match Decimal.readInt64 text.toList with
  | .ok n => if 0 ≤ n ∧ n ≤ maxDays then some n.toNat else none
  | .error _ => none

/-- The number of rows that a text denotes. -/
def rows? (text : String) : Option Nat :=
  (Decimal.readNat maxRows text.toList).toOption

/-- What is wrong with the value of a key. -/
def Key.fault? (text : String) : Key → Option OptionFault
  | .purgeDays => if (days? text).isSome then none else some .unreadable
  | .topN => if (rows? text).isSome then none else some .unreadable
  | .threshold => if (Double.ofText? text.toList).isSome then none else some .unreadable
  | .database => if text = "" then some .missing else none
  | _ => none

end CommandLine
end AccessAudit
