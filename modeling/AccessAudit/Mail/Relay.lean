import AccessAudit.Mail.Message
import AccessAudit.Text.Blank

/-!
# Handing a message to a relay

A relay is spoken to in commands, one at a time, and each has to be answered favourably before the next
one is given: a greeting, the sender, each recipient in order, and then the message.  A relay may react
in any way to what it has been told so far, so it is a function of that history.  After a refusal the
relay is still told goodbye, and nothing else.
-/

namespace AccessAudit
namespace Mail

/-- What a relay is told. -/
inductive Command
  | hello
  | sender (address : String) (international eightBit : Bool)
  | recipient (address : String)
  | data
  | content (chars : List Char)
  | quit
  deriving Repr, DecidableEq

/-- The content with a second dot before every dot that starts a line. -/
def stuffDots : Bool → Bool → List Char → List Char
  | _, _, [] => []
  | atStart, afterReturn, c :: rest =>
      let more := stuffDots (afterReturn && c == '\n') (c == '\r') rest
      if atStart ∧ c = '.' then '.' :: '.' :: more else c :: more

/-- The line by which a command is given. -/
def Command.text : Command → String
  | .hello => "EHLO"
  | .sender address international eightBit =>
      "MAIL FROM:<" ++ address ++ ">" ++ (if international then " SMTPUTF8" else "") ++
        (if eightBit then " BODY=8BITMIME" else "")
  | .recipient address => "RCPT TO:<" ++ address ++ ">"
  | .data => "DATA"
  | .content chars => String.ofList (stuffDots true false chars ++ "\r\n.\r\n".toList)
  | .quit => "QUIT"

/-- A reply of a relay: a code of three digits and lines of text. -/
structure Reply where
  code : Nat
  lines : List String
  deriving Repr, DecidableEq

namespace Reply

/-- Whether a reply is favourable. -/
def isPositive (r : Reply) : Bool :=
  200 ≤ r.code && r.code < 400

/-- Whether a relay names an extension in its reply to the greeting. -/
def offers (extension : String) (r : Reply) : Bool :=
  (r.lines.drop 1).any fun line =>
    line.toList.takeWhile (fun c => !Text.isBlank c) = extension.toList

end Reply

/-- How a relay reacts. -/
inductive Reaction
  | reply (r : Reply)
  /-- The connection failed. -/
  | broken (reason : String)
  deriving Repr, DecidableEq

/-- A relay: whether it can be reached, and how it reacts to what it has been told so far.  To an empty
history it reacts with its greeting. -/
structure Relay where
  unreachable : Option String
  react : List Command → Reaction

/-- Why a message was not taken. -/
inductive RelayFault
  | unreachable (reason : String)
  | broken (reason : String)
  | refused (reply : Reply)
  | needsInternational
  | needsEightBit
  deriving Repr, DecidableEq

namespace RelayFault

/-- The kind of a fault and its reason. -/
def parts : RelayFault → String × String
  | .unreachable reason => ("Connection error", reason)
  | .broken reason => ("network error", reason)
  | .refused reply =>
      (if 500 ≤ reply.code then s!"permanent error ({reply.code})"
        else if 400 ≤ reply.code then s!"transient error ({reply.code})"
        else "internal client error",
        if 400 ≤ reply.code then String.join reply.lines else "Unknown error code")
  | .needsInternational =>
      ("internal client error",
        "Envelope contains non-ascii chars but server does not support SMTPUTF8")
  | .needsEightBit =>
      ("internal client error",
        "Message contains non-ascii chars but server does not support 8BITMIME")

/-- The links of a fault; the reason is a link of its own as well as part of the first one. -/
def links (f : RelayFault) : List String :=
  [f.parts.1 ++ ": " ++ f.parts.2, f.parts.2]

end RelayFault

/-- Whether a text is ASCII. -/
def isAscii (s : List Char) : Bool :=
  s.all fun c => c.toNat < 128

/-- Whether an address of a message has characters beyond ASCII. -/
def Message.isInternational (m : Message) : Bool :=
  (m.sender :: m.recipients).any fun box => !isAscii box.address.toList

/-- Whether the text of a message has characters beyond ASCII. -/
def Message.isEightBit (m : Message) : Bool :=
  !isAscii m.chars

/-- The commands by which a message is handed over, after the greeting. -/
def Message.commands (m : Message) : List Command :=
  .sender m.sender.address m.isInternational m.isEightBit ::
    (m.recipients.map (fun r => .recipient r.address) ++ [.data, .content m.chars])

namespace Relay

/-- The reply to what a relay has been told so far, if it is favourable. -/
def hear (relay : Relay) (history : List Command) : Except RelayFault Reply :=
  match relay.react history with
  | .broken reason => .error (.broken reason)
  | .reply r => if r.isPositive then .ok r else .error (.refused r)

/-- Gives commands one after the other until one is not answered favourably; the history with those
that were given, and the fault if there is one. -/
def tell (relay : Relay) : List Command → List Command → List Command × Option RelayFault
  | history, [] => (history, none)
  | history, c :: rest =>
      let history := history ++ [c]
      match relay.hear history with
      | .error f => (history, some f)
      | .ok _ => tell relay history rest

/-- What the relay's extensions do not allow for in a message. -/
def missing (greeting : Reply) (m : Message) : Option RelayFault :=
  if m.isInternational ∧ !greeting.offers "SMTPUTF8" then some .needsInternational
  else if m.isEightBit ∧ !greeting.offers "8BITMIME" then some .needsEightBit
  else none

/-- Hands a message to a relay: the fault, if there is one, and everything that the relay was told. -/
def submit (relay : Relay) (m : Message) : Except RelayFault Unit × List Command :=
  match relay.unreachable with
  | some reason => (.error (.unreachable reason), [])
  | none =>
      match relay.hear [] with
      | .error f => (.error f, [])
      | .ok _ =>
          match relay.hear [.hello] with
          | .error f => (.error f, [.hello, .quit])
          | .ok greeting =>
              match missing greeting m with
              | some f => (.error f, [.hello])
              | none =>
                  match relay.tell [.hello] m.commands with
                  | (history, some f) => (.error f, history ++ [.quit])
                  | (history, none) => (.ok (), history ++ [.quit])

end Relay
end Mail
end AccessAudit
