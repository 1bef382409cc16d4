import AccessAudit.Double.Shortest
import AccessAudit.Mail.Mailbox
import AccessAudit.Network.Block

/-!
# Run configuration

What a run is to do, and the conditions under which it makes sense.  The conditions are checked in a
fixed order and the first that fails is reported.
-/

namespace AccessAudit

/-- What a run is to do. -/
structure Configuration where
  dryRun : Bool := true
  maintain : Bool := true
  report : Bool := true
  /-- Events older than this many days are removed. -/
  purgeDays : Nat := 10
  /-- Result lists are limited to this many rows. -/
  topN : Nat := 20
  /-- A ratio of sessions to authentications below this one is suspect. -/
  threshold : Double := Double.ofDecimal false 5 (-2)
  recipients : List String := []
  localNetworks : List Block := Block.defaultLocal
  deriving DecidableEq

/-- Why a configuration is refused. -/
inductive ConfigurationFault
  | noWork
  | limitTooSmall (topN : Nat)
  | ratioOutOfRange (threshold : Double)
  | purgeDaysZero
  | localNetwork (text : String) (fault : BlockFault)
  | recipient (text : String) (fault : Mail.MailboxFault)
  deriving DecidableEq

/-- The wording of a refusal. -/
def ConfigurationFault.message : ConfigurationFault → String
  | .noWork => "No work to be done."
  | .limitTooSmall topN => s!"Top N result limit must be at least 5: {topN}"
  | .ratioOutOfRange threshold =>
      "Success ratio threshold must be in range (0,1]: " ++ threshold.shortestText
  | .purgeDaysZero => "Purge day count must be greater than 0"
  | .localNetwork text fault => s!"Invalid local network '{text}': " ++ fault.message
  | .recipient text fault => s!"Invalid email address '{text}': " ++ fault.message

namespace Configuration

/-- The least number of rows a result list may be limited to. -/
def leastTopN : Nat := 5

/-- The distance from one to the next floating-point number, which is the tolerance of the bounds on
the threshold. -/
def tolerance : Double :=
  Double.ofRat ((2 : Rat) ^ (-52 : Int))

/-- Whether a threshold lies above zero and not above one, up to the tolerance. -/
def acceptsThreshold (t : Double) : Bool :=
  tolerance.lt t && !(tolerance.lt (t - Double.ofInt 1))

/-- Checks the conditions in order. -/
def validate (c : Configuration) : Except ConfigurationFault Unit :=
  if ¬(c.maintain ∨ c.report) then .error .noWork
  else if c.topN < leastTopN then .error (.limitTooSmall c.topN)
  else if ¬acceptsThreshold c.threshold then .error (.ratioOutOfRange c.threshold)
  else if c.purgeDays = 0 then .error .purgeDaysZero
  else .ok ()

/-- Whether the report is to be mailed. -/
def hasRecipients (c : Configuration) : Bool :=
  !c.recipients.isEmpty

end Configuration
end AccessAudit
