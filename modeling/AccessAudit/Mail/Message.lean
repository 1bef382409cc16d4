import AccessAudit.Calendar.Date
import AccessAudit.Mail.Body
import AccessAudit.Mail.Header

/-!
# Messages

A message as it is handed to a relay: its sender and recipients, and its text with header fields and
body in lines that end in a carriage return and a line feed.
-/

namespace AccessAudit
namespace Mail

/-- A message. -/
structure Message where
  sender : Mailbox
  recipients : List Mailbox
  subject : String
  /-- The time of sending, in seconds since the start of 1970. -/
  sent : Int
  text : String
  deriving Repr, DecidableEq

/-- Why a message cannot be made. -/
inductive MessageFault
  | sender (text : String) (fault : MailboxFault)
  | recipient (text : String) (fault : MailboxFault)
  | noRecipient
  deriving Repr, DecidableEq

/-- The links of a fault, outermost first. -/
def MessageFault.links : MessageFault → List String
  | .sender text fault => [s!"Invalid sender address '{text}'", fault.message]
  | .recipient text fault => [s!"Invalid recipient address '{text}'", fault.message]
  | .noRecipient =>
      ["Failed to build report message", "missing destination address, invalid envelope"]

/-- The mailbox of a recipient. -/
def readRecipient (text : String) : Except MessageFault Mailbox :=
  (Mailbox.ofText text).mapError (.recipient text)

/-- The message from and to given addresses, of which the first that is none is reported. -/
def Message.make (sender : String) (recipients : List String) (subject text : String) (sent : Int) :
    Except MessageFault Message := do
  let author ← (Mailbox.ofText sender).mapError (.sender sender)
  let boxes ← recipients.mapM readRecipient
  if boxes.isEmpty then .error .noRecipient
  else .ok { sender := author, recipients := boxes, subject := subject, sent := sent, text := text }

/-- The time of sending, as in `Fri, 16 Oct 2026 09:30:00 +0000`. -/
def dateField (sent : Int) : List Char :=
  let (day, rest) := Calendar.splitSeconds sent
  let d := Calendar.Date.ofDay day
  (Calendar.Weekday.ofDay day).short.toList ++ ", ".toList ++ Decimal.padded 2 d.day ++ ' ' ::
    (Calendar.monthShort d.month).toList ++ ' ' :: Decimal.padded 4 d.year.toNat ++ ' ' ::
    Calendar.clockText rest ++ " +0000".toList

/-- The header fields in their order. -/
def Message.fields (m : Message) : List (String × List Char) :=
  [("From", mailboxField "From" [m.sender]),
    ("Subject", textField "Subject" m.subject),
    ("Content-Type", "text/plain; charset=utf-8".toList),
    ("To", mailboxField "To" m.recipients),
    ("Content-Transfer-Encoding", (Transfer.choose m.text).name.toList),
    ("Date", dateField m.sent)]

/-- The message as it is handed over. -/
def Message.chars (m : Message) : List Char :=
  m.fields.flatMap (fun (name, value) => name.toList ++ ':' :: ' ' :: (value ++ ['\r', '\n'])) ++
    '\r' :: '\n' :: (Transfer.choose m.text).encode m.text

/-- The message as it is handed over. -/
def Message.formatted (m : Message) : String :=
  String.ofList m.chars

end Mail
end AccessAudit
