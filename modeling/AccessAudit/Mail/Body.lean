import AccessAudit.Text.Base64
import AccessAudit.Text.Utf8

/-!
# The body of a message

A body is carried in short lines of ASCII.  Text that is mostly ASCII is written with escapes for the
other bytes, in lines of at most 76 characters where an equals sign at the end marks a break that is not
part of the text; other text is written in base64.
-/

namespace AccessAudit
namespace Mail

/-- How a body is carried. -/
inductive Transfer
  | sevenBit
  | quotedPrintable
  | base64
  deriving Repr, DecidableEq

/-- The name of a transfer encoding. -/
def Transfer.name : Transfer → String
  | .sevenBit => "7bit"
  | .quotedPrintable => "quoted-printable"
  | .base64 => "base64"

/-- The greatest length of a line. -/
def lineLimit : Nat := 76

/-- A byte that is written as it is. -/
def isPlainByte (b : Nat) : Bool :=
  b == 9 || (32 ≤ b && b ≤ 126)

/-- The transfer encoding of a text: as it is, if it is ASCII in short lines; with escapes, if at most a
third of its bytes need one; in base64 otherwise. -/
def Transfer.choose (text : String) : Transfer :=
  let bytes := Text.toBytes text
  if bytes.all (· < 128) ∧ (bytes.splitOn 10).all fun line => line.length ≤ lineLimit then .sevenBit
  else if bytes.countP (fun b => !isPlainByte b) ≤ bytes.length / 3 then .quotedPrintable
  else .base64

/-- The text with a carriage return before every line feed.  `afterReturn` tells whether one stands
before the first character. -/
def withReturns : Bool → List Char → List Char
  | _, [] => []
  | afterReturn, c :: rest =>
      if c = '\n' ∧ !afterReturn then '\r' :: '\n' :: withReturns false rest
      else c :: withReturns (c = '\r') rest

/-- The escape of a byte. -/
def escapeByte (b : Nat) : List Char :=
  let hex (n : Nat) : Char := (Nat.digitChar n).toUpper
  ['=', hex (b / 16), hex (b % 16)]

/-- A byte as it stands within a line. -/
def quoteByte (b : Nat) : List Char :=
  if isPlainByte b ∧ b ≠ 61 then [Char.ofNat b] else escapeByte b

/-- The items of a line: its bytes, of which a blank or tab at the end is escaped. -/
def lineItems : List Nat → List (List Char)
  | [] => []
  | [b] => [if b = 32 ∨ b = 9 then escapeByte b else quoteByte b]
  | b :: rest => quoteByte b :: lineItems rest

/-- The end of a line that is continued. -/
def softBreak : List Char := ['=', '\r', '\n']

/-- Items in lines of at most 76 characters, of which `used` are taken; a line that is continued keeps
room for the mark at its end. -/
def fillLines : Nat → List (List Char) → List Char
  | _, [] => []
  | used, [item] =>
      if used + item.length ≤ lineLimit then item else softBreak ++ item
  | used, item :: rest =>
      if used + item.length < lineLimit then item ++ fillLines (used + item.length) rest
      else softBreak ++ item ++ fillLines item.length rest

/-- The lines of bytes between carriage returns with line feeds. -/
def hardLines : List Nat → List (List Nat)
  | [] => [[]]
  | 13 :: 10 :: rest => [] :: hardLines rest
  | b :: rest =>
      match hardLines rest with
      | line :: more => (b :: line) :: more
      | [] => [[b]]

/-- Bytes in quoted form. -/
def quotedLines (bytes : List Nat) : List Char :=
  List.intercalate ['\r', '\n'] ((hardLines bytes).map fun line => fillLines 0 (lineItems line))

/-- Characters in lines of at most 76, up to `fuel` of them. -/
def wrapUpTo : Nat → List Char → List (List Char)
  | 0, _ => []
  | fuel + 1, s =>
      if s.length ≤ lineLimit then [s] else s.take lineLimit :: wrapUpTo fuel (s.drop lineLimit)

/-- Bytes in base64. -/
def base64Lines (bytes : List Nat) : List Char :=
  let s := Text.base64 bytes
  List.intercalate ['\r', '\n'] (wrapUpTo (s.length / lineLimit + 1) s)

/-- A text as it is carried. -/
def Transfer.encode (t : Transfer) (text : String) : List Char :=
  let lines := withReturns false text.toList
  match t with
  | .sevenBit => lines
  | .quotedPrintable => quotedLines (Text.toBytes (String.ofList lines))
  | .base64 => base64Lines (Text.toBytes (String.ofList lines))

end Mail
end AccessAudit
