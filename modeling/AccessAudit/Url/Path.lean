import AccessAudit.Url.Escape

/-!
# Paths of resources

A path is a list of segments that start with a slash each, or a bare text behind the scheme.  Segments
of one dot mean the present place and those of two dots the one above; neither is kept.
-/

namespace AccessAudit
namespace Url

/-- A path. -/
inductive Path
  | segments (list : List (List Char))
  | bare (text : List Char)
  deriving Repr, DecidableEq

namespace Path

/-- The text of a path. -/
def chars : Path → List Char
  | .segments list => list.flatMap ('/' :: ·)
  | .bare text => text

/-- A text in which each escaped dot is written as a dot. -/
def unescapeDots : List Char → List Char
  | '%' :: '2' :: c :: rest =>
      if c = 'e' ∨ c = 'E' then '.' :: unescapeDots rest else '%' :: '2' :: c :: rest
  | '.' :: rest => '.' :: unescapeDots rest
  | s => s

/-- The segments that are kept, in reverse, after those in front of them.  A place that is meant by
dots at the end is a segment without text. -/
def resolve : List (List Char) → List (List Char) → List (List Char)
  | kept, [] => kept
  | kept, s :: rest =>
      match unescapeDots s with
      | ['.'] => if rest = [] then [] :: kept else resolve kept rest
      | ['.', '.'] => if rest = [] then [] :: kept.drop 1 else resolve (kept.drop 1) rest
      | _ => resolve (escape .path s :: kept) rest

/-- The segments of a text behind the first slash, where a test tells which characters part them. -/
def split (isSlash : Char → Bool) : List Char → List (List Char)
  | [] => [[]]
  | c :: rest =>
      if isSlash c then [] :: split isSlash rest
      else
        match split isSlash rest with
        | s :: more => (c :: s) :: more
        | [] => [[c]]

/-- The path of a text behind its first slash. -/
def ofText (isSlash : Char → Bool) (s : List Char) : Path :=
  .segments (resolve [] (split isSlash s)).reverse

/-- The path with a slash at its end, which a bare path without text can only have as an escape. -/
def withSlash : Path → Path
  | .segments list => if list.getLast? = some [] then .segments list else .segments (list ++ [[]])
  | .bare [] => .bare "%2F".toList
  | .bare text => if text.getLast? = some '/' then .bare text else .bare (text ++ ['/'])

end Path
end Url
end AccessAudit
