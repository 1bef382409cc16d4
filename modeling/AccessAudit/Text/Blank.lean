/-!
# Blank characters

The characters that separate words in any script: the Unicode property `White_Space`.  Text read
from outside is trimmed by this class, and a directory value ends at the first character of it.
-/

namespace AccessAudit
namespace Text

/-- A character of the Unicode property `White_Space`. -/
def isBlank (c : Char) : Bool :=
  let n := c.toNat
  (9 ≤ n && n ≤ 13) || n == 0x20 || n == 0x85 || n == 0xA0 || n == 0x1680 ||
    (0x2000 ≤ n && n ≤ 0x200A) || n == 0x2028 || n == 0x2029 || n == 0x202F ||
    n == 0x205F || n == 0x3000

/-- The characters after the leading blanks. -/
def trimStart (s : List Char) : List Char :=
  s.dropWhile isBlank

/-- The characters before the trailing blanks. -/
def trimEnd (s : List Char) : List Char :=
  (s.reverse.dropWhile isBlank).reverse

/-- The characters between the leading and the trailing blanks. -/
def trim (s : List Char) : List Char :=
  trimEnd (trimStart s)

@[simp] theorem trim_nil : trim [] = [] := rfl

/-- The text cut at the first occurrence of a character, which is dropped. -/
def splitOnce (c : Char) : List Char → Option (List Char × List Char)
  | [] => none
  | d :: rest =>
      if d = c then some ([], rest)
      else (splitOnce c rest).map fun (before, after) => (d :: before, after)

/-- The pieces between the occurrences of a character; a text without it is one piece. -/
def splitAll (c : Char) (s : List Char) : List (List Char) :=
  s.splitOn c

/-- An ASCII letter without its case; other characters as they are. -/
def lowerAscii (s : List Char) : List Char :=
  s.map Char.toLower

end Text
end AccessAudit
