import AccessAudit.Network.Address
import AccessAudit.Text.Utf8

/-!
# Escapes in addresses of resources

A byte that has no place in a part of an address is written as a percent sign and two hexadecimal
digits.  Which characters are escaped depends on the part; bytes beyond ASCII and controls always are.
-/

namespace AccessAudit
namespace Url

/-- The part of an address that a character stands in. -/
inductive Part
  | user
  | path
  | bare
  | query (special : Bool)
  | fragment
  deriving Repr, DecidableEq

/-- The signs that are escaped in a part. -/
def Part.signs : Part → List Char
  | .user => " \"<>`#?\x7b\x7d/:;=@[\\]^|".toList
  | .path => " \"<>`#?\x7b\x7d".toList
  | .bare => []
  | .query special => " \"#<>".toList ++ (if special then ['\''] else [])
  | .fragment => " \"<>`".toList

/-- Whether a character is escaped in a part. -/
def Part.escapes (p : Part) (c : Char) : Bool :=
  c.toNat < 32 || 126 < c.toNat || p.signs.contains c

/-- The escape of a byte. -/
def escapeByte (b : Nat) : List Char :=
  let hex (n : Nat) : Char := (Nat.digitChar n).toUpper
  ['%', hex (b / 16), hex (b % 16)]

/-- A character as it is written in a part. -/
def escapeChar (p : Part) (c : Char) : List Char :=
  if p.escapes c then (Text.toBytes (String.singleton c)).flatMap escapeByte else [c]

/-- A text as it is written in a part. -/
def escape (p : Part) (s : List Char) : List Char :=
  s.flatMap (escapeChar p)

/-- The bytes of a text with escapes; a percent sign that starts no escape stands for itself. -/
def unescape : List Char → List Nat
  | '%' :: a :: b :: rest =>
      match Address.hexValue? a, Address.hexValue? b with
      | some x, some y => (x * 16 + y) :: unescape rest
      | _, _ => '%'.toNat :: unescape (a :: b :: rest)
  | c :: rest => Text.toBytes (String.singleton c) ++ unescape rest
  | [] => []

end Url
end AccessAudit
