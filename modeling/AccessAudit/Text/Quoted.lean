import AccessAudit.Text.WidthClasses

/-!
# Quoted text

Paths in messages stand between double quotes, with the characters escaped that would not show or
would end the quotation.
-/

namespace AccessAudit
namespace Text

/-- The lower-case hexadecimal digits of a code point in braces. -/
def codePointEscape (c : Char) : List Char :=
  '\\' :: 'u' :: '\x7b' :: (Nat.toDigits 16 c.toNat ++ ['\x7d'])

/-- A character as it stands in a quotation. -/
def escapeChar (c : Char) : List Char :=
  if c = '\x00' then ['\\', '0']
  else if c = '\t' then ['\\', 't']
  else if c = '\r' then ['\\', 'r']
  else if c = '\n' then ['\\', 'n']
  else if c = '\\' ∨ c = '"' ∨ c = '\'' then ['\\', c]
  else if c.toNat < 0x20 ∨ (0x7F ≤ c.toNat ∧ c.toNat < 0xA0) ∨ zeroWidth.contains c.toNat then
    codePointEscape c
  else [c]

/-- A text between double quotes. -/
def quoted (s : String) : String :=
  String.ofList ('"' :: (s.toList.flatMap escapeChar ++ ['"']))

end Text
end AccessAudit
