import AccessAudit.Mail.Relay
import AccessAudit.Report

/-!
# Delivering a report

A report without sections goes nowhere.  One with sections is printed if nobody is to receive it, and
mailed otherwise.
-/

namespace AccessAudit
namespace Mail

/-- How reports are mailed. -/
structure Postage where
  sender : String := "root@localhost"
  host : String := "localhost"
  tag : String := "iptracking"
  deriving Repr, DecidableEq

/-- Where a report went. -/
inductive Delivery
  | suppressed
  | printed
  | mailed (recipients : Nat)
  deriving Repr, DecidableEq

/-- Why a report was not mailed. -/
inductive DeliveryFault
  | message (fault : MessageFault)
  | relay (host : String) (fault : RelayFault)
  deriving Repr, DecidableEq

/-- The links of a fault, outermost first. -/
def DeliveryFault.links : DeliveryFault → List String
  | .message fault => fault.links
  | .relay host fault => s!"Failed to send report through {host}" :: fault.links

/-- What a delivery did. -/
structure Delivered where
  result : Except DeliveryFault Delivery
  /-- What was printed. -/
  printed : String := ""
  /-- What the relay was told. -/
  told : List Command := []

/-- The message that carries a report. -/
def reportMessage (p : Postage) (recipients : List String) (r : Report) (cpu : CpuTime) (now : Int) :
    Except MessageFault Message :=
  Message.make p.sender recipients (r.subject p.tag) (r.render cpu) now

/-- Delivers a report at a reading of the computing time. -/
def deliver (p : Postage) (recipients : List String) (relay : Relay) (r : Report) (cpu : CpuTime)
    (now : Int) : Delivered :=
  if r.isEmpty then { result := .ok .suppressed }
  else if recipients.isEmpty then { result := .ok .printed, printed := r.render cpu ++ "\n" }
  else
    match reportMessage p recipients r cpu now with
    | .error f => { result := .error (.message f) }
    | .ok m =>
        match relay.submit m with
        | (.error f, told) => { result := .error (.relay p.host f), told := told }
        | (.ok (), told) => { result := .ok (.mailed recipients.length), told := told }

end Mail
end AccessAudit
