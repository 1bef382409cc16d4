import AccessAudit.Text.WidthClasses

/-!
# Display width

The number of terminal columns of a text without line feeds.  Most characters take one column, wide
ones two, combining and ignorable ones none.  A sequence of emoji that are joined into one picture
takes two.
-/

namespace AccessAudit
namespace Text

/-- A count of the columns of texts without line feeds. -/
abbrev Measure := List Char → Nat

/-- Columns of a character that stands alone.  Control characters take one. -/
def charWidth (c : Char) : Nat :=
  let n := c.toNat
  if n < 0xAD then 1
  else if zeroWidth.contains n then 0
  else if wide.contains n then 2
  else 1

/-- What an emoji before the present character leaves open. -/
inductive Joining
  /-- No emoji stands before. -/
  | apart
  /-- A picture stands before; a skin tone or a joiner continues it. -/
  | picture
  /-- A joiner follows a picture; the next emoji is part of it. -/
  | joined
  deriving Repr, DecidableEq

/-- The character that asks for the emoji form of the one before it. -/
def emojiSelector : Char := '\uFE0F'

/-- The character that joins two emoji. -/
def joiner : Char := '\u200D'

/-- A skin tone. -/
def isTone (c : Char) : Bool :=
  0x1F3FB ≤ c.toNat && c.toNat ≤ 0x1F3FF

/-- A character that is shown as a picture of two columns. -/
def isPicture (c : Char) : Bool :=
  let n := c.toNat
  (0x1F000 ≤ n || (0x2300 ≤ n && n ≤ 0x2BFF)) && wide.contains n && !(0x20000 ≤ n)

/-- Columns of a text after what `state` describes. -/
def widthFrom (state : Joining) : List Char → Nat
  | [] => 0
  | [c] => if isPicture c ∧ state = .joined then 0 else if isTone c ∧ state = .picture then 0 else charWidth c
  | c :: d :: rest =>
      if textEmoji.contains c.toNat ∧ d = emojiSelector then
        (if state = .joined then 0 else 2) + widthFrom .picture rest
      else if c = joiner ∧ state = .picture then widthFrom .joined (d :: rest)
      else if c = emojiSelector ∧ state = .picture then widthFrom .picture (d :: rest)
      else if isTone c ∧ state = .picture then widthFrom .picture (d :: rest)
      else if isPicture c then
        (if state = .joined then 0 else 2) + widthFrom .picture (d :: rest)
      else charWidth c + widthFrom .apart (d :: rest)

/-- Columns of a text without line feeds. -/
def displayWidth (s : List Char) : Nat :=
  widthFrom .apart s

@[simp] theorem displayWidth_nil : displayWidth [] = 0 := rfl

end Text
end AccessAudit
