import AccessAudit.Mail.Mailbox
import AccessAudit.Text.Base64
import AccessAudit.Text.Utf8

/-!
# Header lines

The values of header fields in ASCII.  Words are written as they are and folded at their blanks into
lines of 76 characters; words with other characters are written as encoded words.  A display name is
plain, quoted or an encoded word, whichever is the simplest that it admits.
-/

namespace AccessAudit
namespace Mail

/-- A header line that is being written. -/
structure HeaderLine where
  /-- What has been written. -/
  written : List Char := []
  /-- The length of the present line. -/
  length : Nat
  /-- Blanks that are due before anything else is written. -/
  gap : Nat := 0
  /-- Whether the present line may be broken off. -/
  breakable : Bool := false
  deriving Repr, DecidableEq

namespace HeaderLine

/-- Writes characters, after the blanks that are due. -/
def put (h : HeaderLine) (s : List Char) : HeaderLine :=
  { written := h.written ++ List.replicate h.gap ' ' ++ s
    length := h.length + h.gap + s.length
    gap := 0
    breakable := true }

/-- Goes to a new line; the blanks that are due remain due. -/
def newLine (h : HeaderLine) : HeaderLine :=
  { h with written := h.written ++ ['\r', '\n'], length := 0, breakable := false }

/-- One more blank is due. -/
def space (h : HeaderLine) : HeaderLine :=
  { h with gap := h.gap + 1 }

/-- Writes a word, on a new line if it does not fit and a blank is due. -/
def putWord (h : HeaderLine) (word : List Char) : HeaderLine :=
  if h.breakable ∧ 0 < h.gap ∧ 76 < h.length + h.gap + word.length then h.newLine.put word
  else h.put word

/-- The longest start of a text that takes no more than a number of bytes. -/
def fitting : Nat → List Char → List Char
  | _, [] => []
  | room, c :: rest =>
      if c.utf8Size ≤ room then c :: fitting (room - c.utf8Size) rest else []

/-- The bytes that fit into an encoded word on the present line. -/
def room (h : HeaderLine) : Nat :=
  (76 - (10 + 2 + (h.length + h.gap) + 2)) / 4 * 3

/-- An encoded word. -/
def encodedWord (s : List Char) : List Char :=
  "=?utf-8?b?".toList ++ Text.base64 (Text.toBytes (String.ofList s)) ++ "?=".toList

/-- Writes a text as encoded words, each as long as its line allows.  Where nothing fits, a new line is
begun, unless that would add a blank to the text.  At most `fuel` lines and words are written. -/
def encodeUpTo : Nat → Bool → HeaderLine → List Char → HeaderLine
  | 0, _, h, _ => h
  | _, _, h, [] => h
  | fuel + 1, wrote, h, c :: rest =>
      match fitting h.room (c :: rest) with
      | [] =>
          if wrote ∨ 0 < h.gap then
            let h := h.newLine
            encodeUpTo fuel wrote (if h.gap = 0 then h.space else h) (c :: rest)
          else encodeUpTo fuel true (h.put (encodedWord [c])) rest
      | word => encodeUpTo fuel true (h.put (encodedWord word)) ((c :: rest).drop word.length)

/-- Writes a text as encoded words. -/
def encode (h : HeaderLine) (s : List Char) : HeaderLine :=
  encodeUpTo (2 * s.length + 2) false h s

end HeaderLine

/-- The words of a text, each with the blank that follows it. -/
def wordsWithBlank : List Char → List (List Char)
  | [] => []
  | c :: rest =>
      if c = ' ' then [c] :: wordsWithBlank rest
      else
        match wordsWithBlank rest with
        | word :: more => (c :: word) :: more
        | [] => [[c]]

/-- Whether a word may be written as it is. -/
def isPlainWord (word : List Char) : Bool :=
  word.all fun c =>
    let n := c.toNat
    (1 ≤ n && n ≤ 9) || n == 11 || n == 12 || (14 ≤ n && n ≤ 127)

/-- Writes the words that were held back as one encoded text; blanks at its end stay outside. -/
def flushWords (h : HeaderLine) (held : List Char) : HeaderLine :=
  if held = [] then h
  else
    let text := (held.reverse.dropWhile (· = ' ')).reverse
    let h := h.encode text
    { h with gap := h.gap + (held.length - text.length) }

/-- Writes words, holding back those that have to be encoded. -/
def putWords : HeaderLine → List Char → List (List Char) → HeaderLine
  | h, held, [] => flushWords h held
  | h, held, word :: rest =>
      if isPlainWord word then
        let h := flushWords h held
        let text := word.filter (· ≠ ' ')
        let h := if text = [] then h else h.putWord text
        putWords { h with gap := h.gap + (word.length - text.length) } [] rest
      else putWords h (held ++ word) rest

/-- The value of a text field with a name. -/
def textField (name : String) (value : String) : List Char :=
  let h := putWords { length := name.length + 2 } [] (wordsWithBlank value.toList)
  h.written ++ List.replicate h.gap ' '

/-! ### Mailboxes -/

/-- A character of a name that has to be quoted but not escaped. -/
def needsQuotes (c : Char) : Bool :=
  isPlainWord [c] && (Grammar.isAtomChar c || c == ' ' || c == '\t' || c == '.')

/-- A character that is escaped within quotes. -/
def needsEscape (c : Char) : Bool :=
  c == '"' || c == '\\'

/-- Writes a display name. -/
def HeaderLine.putName (h : HeaderLine) (name : List Char) : HeaderLine :=
  if name.all Char.isAlphanum then h.put name
  else if name.all fun c => needsQuotes c || needsEscape c then
    h.put ('"' :: (name.flatMap (fun c => if needsEscape c then ['\\', c] else [c]) ++ ['"']))
  else h.encode name

/-- Writes a mailbox. -/
def HeaderLine.putMailbox (h : HeaderLine) (m : Mailbox) : HeaderLine :=
  match m.name with
  | none => h.put m.address.toList
  | some name => ((h.putName name.toList).space.put ('<' :: m.address.toList)).put ['>']

/-- Writes mailboxes with commas between them. -/
def HeaderLine.putMailboxes : HeaderLine → List Mailbox → HeaderLine
  | h, [] => h
  | h, [m] => h.putMailbox m
  | h, m :: rest => (((h.putMailbox m).put [',']).space).putMailboxes rest

/-- The value of a field of mailboxes with a name. -/
def mailboxField (name : String) (ms : List Mailbox) : List Char :=
  (HeaderLine.putMailboxes { length := name.length + 2 } ms).written

end Mail
end AccessAudit
