/-!
# Patterns of characters

A pattern says how a stretch of a text may look, and which parts of it are wanted.  A place in a text may
allow several stretches; repetitions take as much as they can first and give back what the rest of the
pattern needs.  A text is searched from left to right, and the search goes on behind what was found.
-/

namespace AccessAudit
namespace Text

/-- A pattern. -/
inductive Pattern
  /-- Nothing, at the start of a line. -/
  | lineStart
  /-- Nothing, at the end of a line. -/
  | lineEnd
  /-- A character of a class. -/
  | one (allowed : Char → Bool)
  /-- Any number of characters of a class, the more the better. -/
  | many (allowed : Char → Bool)
  /-- One pattern and then another. -/
  | inOrder (first second : Pattern)
  /-- A part that is wanted. -/
  | group (inner : Pattern)

/-- A place in a text: the character before it, if there is one, and the characters behind it. -/
structure Place where
  previous : Option Char
  rest : List Char
  deriving Repr, DecidableEq

/-- A stretch of a text, with those of its parts that are wanted. -/
structure Stretch where
  text : List Char
  groups : List (List Char) := []
  deriving Repr, DecidableEq

/-- The place behind a stretch. -/
def Place.behind (place : Place) (text : List Char) : Place :=
  { previous := text.getLast?.or place.previous
    rest := place.rest.drop text.length }

/-- A stretch and then another. -/
def Stretch.append (first second : Stretch) : Stretch :=
  { text := first.text ++ second.text
    groups := first.groups ++ second.groups }

namespace Pattern

/-- A word whose characters are recognized one by one, and then another pattern. -/
def word (same : Char → Char → Bool) (next : Pattern) : List Char → Pattern
  | [] => next
  | c :: rest => .inOrder (.one (same c)) (word same next rest)

/-- At least one character of a class, the more the better. -/
def atLeastOne (allowed : Char → Bool) : Pattern :=
  .inOrder (.one allowed) (.many allowed)

/-- The beginnings of a text whose characters are all of a class, the longest first. -/
def runs (allowed : Char → Bool) : List Char → List (List Char)
  | [] => [[]]
  | c :: rest => if allowed c then (runs allowed rest).map (c :: ·) ++ [[]] else [[]]

/-- The stretches that a pattern allows at a place, the preferred ones first. -/
def ways : Pattern → Place → List Stretch
  | .lineStart, place =>
      if place.previous.all (· = '\n') then [{ text := [] }] else []
  | .lineEnd, place =>
      if place.rest.head?.all (· = '\n') then [{ text := [] }] else []
  | .one allowed, place =>
      match place.rest with
      | [] => []
      | c :: _ => if allowed c then [{ text := [c] }] else []
  | .many allowed, place =>
      (runs allowed place.rest).map fun run => { text := run }
  | .inOrder first second, place =>
      (first.ways place).flatMap fun x => (second.ways (place.behind x.text)).map x.append
  | .group inner, place =>
      (inner.ways place).map fun x => { x with groups := x.text :: x.groups }

/-- The stretches that are found in a text after some of its characters have been skipped, for a pattern that
takes at least one character. -/
def findFrom (pattern : Pattern) : Nat → Option Char → List Char → List Stretch
  | _, _, [] => []
  | skipped + 1, _, c :: rest => pattern.findFrom skipped c rest
  | 0, previous, c :: rest =>
      match (pattern.ways { previous := previous, rest := c :: rest }).head? with
      | none => pattern.findFrom 0 c rest
      | some x => x :: pattern.findFrom (x.text.length - 1) c rest

/-- The stretches that are found in a text. -/
def findAll (pattern : Pattern) (text : List Char) : List Stretch :=
  pattern.findFrom 0 none text

end Pattern
end Text
end AccessAudit
