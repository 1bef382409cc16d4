/-!
# Bytes as text

Bytes from another program are read as UTF-8.  Where they are not, the longest start of a character
that is there, or else one byte, counts as one replacement character.
-/

namespace AccessAudit
namespace Text

/-- The character that stands for bytes that are no text. -/
def replacement : Char := '\uFFFD'

/-- What the first byte of a character of several bytes demands: its share of the code point, the
bounds of the second byte, and the number of bytes after that. -/
def leadByte (b : Nat) : Option (Nat × Nat × Nat × Nat) :=
  if 0xC2 ≤ b ∧ b ≤ 0xDF then some (b - 0xC0, 0x80, 0xBF, 0)
  else if b = 0xE0 then some (0, 0xA0, 0xBF, 1)
  else if b = 0xED then some (0xD, 0x80, 0x9F, 1)
  else if 0xE1 ≤ b ∧ b ≤ 0xEF then some (b - 0xE0, 0x80, 0xBF, 1)
  else if b = 0xF0 then some (0, 0x90, 0xBF, 2)
  else if 0xF1 ≤ b ∧ b ≤ 0xF3 then some (b - 0xF0, 0x80, 0xBF, 2)
  else if b = 0xF4 then some (4, 0x80, 0x8F, 2)
  else none

/-- Takes the bytes of a character after the first, as far as they are there; the character is none if
one is missing. -/
def takeContinuation (n lo hi : Nat) : Nat → List Nat → Option Nat × List Nat
  | _, [] => (none, [])
  | 0, b :: rest => if lo ≤ b ∧ b ≤ hi then (some (n * 64 + (b - 0x80)), rest) else (none, b :: rest)
  | more + 1, b :: rest =>
      if lo ≤ b ∧ b ≤ hi then takeContinuation (n * 64 + (b - 0x80)) 0x80 0xBF more rest
      else (none, b :: rest)

/-- The text of at most `fuel` characters of bytes. -/
def decodeUpTo : Nat → List Nat → List Char
  | 0, _ => []
  | _, [] => []
  | fuel + 1, b :: rest =>
      if b < 0x80 then Char.ofNat b :: decodeUpTo fuel rest
      else
        match leadByte b with
        | none => replacement :: decodeUpTo fuel rest
        | some (n, lo, hi, more) =>
            let (c, rest) := takeContinuation n lo hi more rest
            (c.map Char.ofNat).getD replacement :: decodeUpTo fuel rest

/-- The text of bytes. -/
def ofBytes (bytes : List Nat) : String :=
  String.ofList (decodeUpTo bytes.length bytes)

/-- What is wrong with bytes that are no text: where the first character that is none begins, and the number of
its bytes, or none if the bytes end within it. -/
structure Utf8Fault where
  position : Nat
  length : Option Nat
  deriving Repr, DecidableEq

/-- The wording of a fault. -/
def Utf8Fault.message (f : Utf8Fault) : String :=
  match f.length with
  | some n => s!"invalid utf-8 sequence of {n} bytes from index {f.position}"
  | none => s!"incomplete utf-8 byte sequence from index {f.position}"

/-- The first fault in at most `fuel` characters of bytes from a position on. -/
def faultUpTo : Nat → Nat → List Nat → Option Utf8Fault
  | 0, _, _ => none
  | _, _, [] => none
  | fuel + 1, position, b :: rest =>
      if b < 0x80 then faultUpTo fuel (position + 1) rest
      else
        match leadByte b with
        | none => some ⟨position, some 1⟩
        | some (n, lo, hi, more) =>
            match takeContinuation n lo hi more rest with
            | (some _, after) => faultUpTo fuel (position + 1 + (rest.length - after.length)) after
            | (none, []) => some ⟨position, none⟩
            | (none, after) => some ⟨position, some (1 + (rest.length - after.length))⟩

/-- The first fault of bytes; none if they are a text. -/
def utf8Fault? (bytes : List Nat) : Option Utf8Fault :=
  faultUpTo bytes.length 0 bytes

/-- The bytes of a text. -/
def toBytes (s : String) : List Nat :=
  s.toUTF8.toList.map (·.toNat)

end Text
end AccessAudit
