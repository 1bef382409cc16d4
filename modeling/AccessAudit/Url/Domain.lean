import AccessAudit.Text.Blank
import AccessAudit.Text.CaseFold
import AccessAudit.Url.Punycode

/-!
# Domains

A domain is written in small letters and in ASCII, and how any character of it is written there is a matter
of large tables.  Whoever reads addresses of resources is therefore given a reader of domains.  The reader
here knows capital letters, wide characters, full stops and marks that are not seen, and carries what is left
beyond ASCII in Punycode; it does not compose characters.
-/

namespace AccessAudit
namespace Url

/-- A reader of domains: the form of a domain in ASCII, or nothing for bytes that are no domain. -/
abbrev Domains := List Nat → Option (List Char)

namespace Domain

/-- An ASCII character that has no place in a domain. -/
def isForbidden (c : Char) : Bool :=
  c.toNat ≤ 32 || c.toNat = 127 || "%#/:<>?@[\\]^|".toList.contains c

/-- The characters by which a character of a domain is replaced: small letters for capital ones, the
ASCII form for a wide one, a dot for other full stops, and nothing for marks that are not seen. -/
def normalize (c : Char) : List Char :=
  let n := c.toNat
  if n < 128 then [c.toLower]
  else if n = 0x3002 ∨ n = 0xFF0E ∨ n = 0xFF61 then ['.']
  else if n = 0xAD ∨ n = 0x200B ∨ n = 0x2060 ∨ n = 0xFEFF ∨ (0xFE00 ≤ n ∧ n ≤ 0xFE0F) then []
  else if 0xFF01 ≤ n ∧ n ≤ 0xFF5E then [(Char.ofNat (n - 0xFEE0)).toLower]
  else if n = 0x3C2 then [c]
  else [Char.ofNat (Text.foldCase c)]

/-- A character beyond ASCII that no label may hold: controls, characters for private use, and the
sign for what is no text. -/
def isUnassigned (c : Char) : Bool :=
  let n := c.toNat
  (0x80 ≤ n && n ≤ 0x9F) || (0xE000 ≤ n && n ≤ 0xF8FF) || (0xFFF0 ≤ n && n ≤ 0xFFFF) || 0xF0000 ≤ n

/-- The mark in front of a label that is carried in ASCII. -/
def asciiMark : List Char := "xn--".toList

/-- A label in ASCII. -/
def label? (s : List Char) : Option (List Char) :=
  if s.any fun c => (c.toNat < 128 && isForbidden c) || isUnassigned c then none
  else if s.any fun c => 128 ≤ c.toNat then some (asciiMark ++ Punycode.encode s)
  else if asciiMark.isPrefixOf s then
    match Punycode.decode? (s.drop 4) with
    | some text =>
        if (text.any fun c => 128 ≤ c.toNat) ∧ !(text.any isUnassigned) ∧ Punycode.encode text = s.drop 4
        then some s
        else none
    | none => none
  else some s

/-- A domain in ASCII, label by label. -/
def toAscii? (bytes : List Nat) : Option (List Char) := do
  let text ← String.fromUTF8? (ByteArray.mk (bytes.map UInt8.ofNat).toArray)
  let labels ← (Text.splitAll '.' (text.toList.flatMap normalize)).mapM label?
  return List.intercalate ['.'] labels

end Domain
end Url
end AccessAudit
