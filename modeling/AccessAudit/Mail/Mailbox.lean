import AccessAudit.Network.Address

/-!
# Mailboxes

A mailbox is an address `user@domain`, alone or between angle brackets after a display name.  Names and
users are made of atoms, with single blanks kept between them, and of quoted strings.  What the grammar
admits as user and domain is then held to the limits of mail: a user of at most 64 bytes, and a domain
of at most 254 bytes in labels of at most 63.
-/

namespace AccessAudit
namespace Mail

/-- A mailbox: the display name, if one is given, and the two parts of the address. -/
structure Mailbox where
  name : Option String
  user : String
  domain : String
  deriving Repr, DecidableEq

/-- Why a text is no mailbox. -/
inductive MailboxFault
  | form
  | user
  | domain
  deriving Repr, DecidableEq

/-- The wording of a fault. -/
def MailboxFault.message : MailboxFault → String
  | .form => "Invalid input"
  | .user => "Invalid email user"
  | .domain => "Invalid email domain"

/-- The address of a mailbox. -/
def Mailbox.address (m : Mailbox) : String :=
  m.user ++ "@" ++ m.domain

namespace Grammar

/-- A recogniser: what it takes from the start of a text, and the rest. -/
abbrev Taker := List Char → Option (List Char × List Char)

/-- A character of atoms: a letter, a digit, one of some signs, or any character beyond ASCII. -/
def isAtomChar (c : Char) : Bool :=
  c.isAlphanum || "!#$%&'*+-/=?^_`\x7b|\x7d~".toList.contains c || 128 ≤ c.toNat

/-- A character that stands for itself within quotes. -/
def isQuotedChar (c : Char) : Bool :=
  let n := c.toNat
  n == 33 || (35 ≤ n && n ≤ 91) || (93 ≤ n && n ≤ 126) || (1 ≤ n && n ≤ 8) || n == 11 || n == 12 ||
    (14 ≤ n && n ≤ 31) || n == 127

/-- A character that may stand after a backslash within quotes. -/
def isEscapable (c : Char) : Bool :=
  let n := c.toNat
  (1 ≤ n && n ≤ 9) || n == 11 || n == 12 || (14 ≤ n && n ≤ 127)

/-- A blank or a tab. -/
def isSpace (c : Char) : Bool :=
  c == ' ' || c == '\t'

/-- Takes any number of blanks and keeps the first. -/
def space (s : List Char) : List Char × List Char :=
  (s.take 1 |>.filter isSpace, s.dropWhile isSpace)

/-- Takes one character. -/
def just (c : Char) : Taker
  | d :: rest => if d = c then some ([c], rest) else none
  | [] => none

/-- Takes at least one character of a class. -/
def some1 (p : Char → Bool) : Taker := fun s =>
  if s.takeWhile p = [] then none else some (s.takeWhile p, s.dropWhile p)

/-- Takes one thing and then another. -/
def seq (p q : Taker) : Taker := fun s => do
  let (a, s) ← p s
  let (b, s) ← q s
  return (a ++ b, s)

/-- Takes the first of two things, or else the second. -/
def either (p q : Taker) : Taker := fun s =>
  match p s with
  | some r => some r
  | none => q s

/-- Takes a thing as often as it occurs, up to `fuel` times. -/
def manyUpTo (p : Taker) : Nat → List Char → List Char × List Char
  | 0, s => ([], s)
  | fuel + 1, s =>
      match p s with
      | none => ([], s)
      | some (a, rest) =>
          let (b, rest) := manyUpTo p fuel rest
          (a ++ b, rest)

/-- Takes a thing, which is never empty, as often as it occurs. -/
def many (p : Taker) : Taker := fun s =>
  some (manyUpTo p s.length s)

/-- An atom after blanks, of which one is kept. -/
def atom : Taker := fun s =>
  let (gap, s) := space s
  (some1 isAtomChar s).map fun (a, rest) => (gap ++ a, rest)

/-- Two or more atoms with dots between them, without blanks but those before the first. -/
def dotAtom : Taker := fun s =>
  let (gap, s) := space s
  let piece := seq (just '.') (some1 isAtomChar)
  (seq (some1 isAtomChar) (seq piece (many piece)) s).map fun (a, rest) => (gap ++ a, rest)

/-- One character within quotes, after blanks, of which one is kept. -/
def quotedContent : Taker := fun s =>
  let (gap, s) := space s
  match s with
  | '\\' :: c :: rest => if isEscapable c then some (gap ++ [c], rest) else none
  | c :: rest => if isQuotedChar c ∨ 128 ≤ c.toNat then some (gap ++ [c], rest) else none
  | [] => none

/-- A quoted string, without its quotes. -/
def quotedString : Taker := fun s => do
  let (_, s) ← just '"' s
  let (content, s) ← many quotedContent s
  let (_, s) ← just '"' (s.dropWhile Text.isBlank)
  return (content, s)

/-- A word of a name. -/
def word : Taker :=
  either quotedString atom

/-- A display name. -/
def phrase : Taker :=
  seq word (many (either word (just '.')))

/-- The user of an address. -/
def user : Taker :=
  either dotAtom (either quotedString (seq word (many (seq (just '.') word))))

/-- The domain of an address. -/
def domain : Taker :=
  either dotAtom (seq atom (many (seq (just '.') atom)))

/-- An address: user, domain and the rest. -/
def address (s : List Char) : Option ((List Char × List Char) × List Char) := do
  let (u, s) ← user s
  let (_, s) ← just '@' s
  let (d, s) ← domain s
  return ((u, d), s)

/-- An address between angle brackets, with blanks around them. -/
def bracketed (s : List Char) : Option ((List Char × List Char) × List Char) := do
  let (_, s) ← just '<' (s.dropWhile Text.isBlank)
  let (a, s) ← address s
  let (_, s) ← just '>' s
  return (a, s.dropWhile Text.isBlank)

/-- A whole mailbox: name, user and domain. -/
def mailbox (s : List Char) : Option (Option (List Char) × List Char × List Char) := do
  let s := s.dropWhile Text.isBlank
  let named : Option ((Option (List Char) × List Char × List Char) × List Char) :=
    match phrase s with
    | some (name, after) => (bracketed after).map fun ((u, d), rest) => ((some name, u, d), rest)
    | none => (bracketed s).map fun ((u, d), rest) => ((none, u, d), rest)
  let (m, rest) ←
    match named with
    | some m => some m
    | none => (address s).map fun ((u, d), rest) => ((none, u, d), rest)
  if rest.dropWhile Text.isBlank = [] then some m else none

end Grammar

/-! ### Limits -/

/-- Atoms with dots between them. -/
def isDotted (s : List Char) : Bool :=
  (Text.splitAll '.' s).all fun piece => piece ≠ [] && piece.all Grammar.isAtomChar

/-- What may stand between the quotes of a quoted user. -/
def isQuotedUser : List Char → Bool
  | [] => true
  | '\\' :: c :: rest => 33 ≤ c.toNat && c.toNat ≤ 126 && isQuotedUser rest
  | c :: rest =>
      let n := c.toNat
      (Grammar.isSpace c || n == 33 || (35 ≤ n && n ≤ 91) || (93 ≤ n && n ≤ 126) || 128 ≤ n) &&
        isQuotedUser rest

/-- Whether a user keeps to the limits of mail. -/
def acceptsUser (s : String) : Bool :=
  let cs := s.toList
  s.utf8ByteSize ≤ 64 && s ≠ "" &&
    if cs.head? = some '"' ∧ cs.getLast? = some '"' then
      2 < cs.length && isQuotedUser ((cs.drop 1).dropLast)
    else isDotted cs

/-- Whether a label of a domain keeps to the limits of mail. -/
def acceptsLabel (label : List Char) : Bool :=
  label ≠ [] && (String.ofList label).utf8ByteSize ≤ 63 && label.head? ≠ some '-' &&
    label.getLast? ≠ some '-' && label.all Grammar.isAtomChar

/-- Whether a domain keeps to the limits of mail, as a name or as an address. -/
def acceptsDomain (s : String) : Bool :=
  (s ≠ "" && s.utf8ByteSize ≤ 254 && (Text.splitAll '.' s.toList).all acceptsLabel) ||
    (Address.ofText? s.toList).isSome

/-- The mailbox that a text denotes. -/
def Mailbox.ofText (s : String) : Except MailboxFault Mailbox :=
  match Grammar.mailbox s.toList with
  | none => .error .form
  | some (name, user, domain) =>
      let user := String.ofList user
      let domain := String.ofList domain
      if ¬acceptsUser user then .error .user
      else if ¬acceptsDomain domain then .error .domain
      else .ok ⟨name.map String.ofList, user, domain⟩

end Mail
end AccessAudit
