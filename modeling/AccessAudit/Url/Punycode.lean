/-!
# Labels beyond ASCII

A label of a domain with characters beyond ASCII is carried in ASCII: first its ASCII characters, then
the others in ascending order, each as the distance from the one before in digits to base 36.  How many
digits a distance takes is adapted to the distances seen so far.
-/

namespace AccessAudit
namespace Url
namespace Punycode

/-- The letter or digit of a value below 36. -/
def digit (n : Nat) : Char :=
  if n < 26 then Char.ofNat ('a'.toNat + n) else Char.ofNat ('0'.toNat + (n - 26))

/-- The value of a letter or digit. -/
def digitValue? (c : Char) : Option Nat :=
  if 'a' ≤ c ∧ c ≤ 'z' then some (c.toNat - 'a'.toNat)
  else if 'A' ≤ c ∧ c ≤ 'Z' then some (c.toNat - 'A'.toNat)
  else if '0' ≤ c ∧ c ≤ '9' then some (c.toNat - '0'.toNat + 26)
  else none

/-- The value from which on a digit at a position is not the last one. -/
def threshold (position bias : Nat) : Nat :=
  if position ≤ bias then 1 else if bias + 26 ≤ position then 26 else position - bias

/-- Divides a distance until it is small, and counts the divisions in steps of 36. -/
def shrink (delta count : Nat) : Nat × Nat :=
  if 455 < delta then shrink (delta / 35) (count + 36) else (delta, count)
termination_by delta
decreasing_by omega

/-- The bias after a distance, where `points` characters are known by now. -/
def adapt (delta points : Nat) (first : Bool) : Nat :=
  let scaled := if first then delta / 700 else delta / 2
  let (rest, count) := shrink (scaled + scaled / points) 0
  count + 36 * rest / (rest + 38)

/-! ### Writing -/

theorem threshold_bounds
    (position bias : Nat) :
    1 ≤ threshold position bias ∧ threshold position bias ≤ 26 := by
  unfold threshold
  split
  · omega
  · split <;> omega

/-- The digits of a distance. -/
def encodeDistance (bias position q : Nat) : List Char :=
  let t := threshold position bias
  if q < t then [digit q]
  else digit (t + (q - t) % (36 - t)) :: encodeDistance bias (position + 36) ((q - t) / (36 - t))
termination_by q
decreasing_by
  have h := threshold_bounds position bias
  have := Nat.div_le_self (q - threshold position bias) (36 - threshold position bias)
  omega

/-- What is known while a label is written. -/
structure Progress where
  written : List Char
  delta : Nat := 0
  bias : Nat := 72
  points : Nat
  first : Bool := true

/-- Goes over one character of the label while the characters `point` are written. -/
def pass (point : Nat) (p : Progress) (c : Char) : Progress :=
  if c.toNat < point then { p with delta := p.delta + 1 }
  else if c.toNat = point then
    { written := p.written ++ encodeDistance p.bias 36 p.delta
      delta := 0
      bias := adapt p.delta (p.points + 1) p.first
      points := p.points + 1
      first := false }
  else p

/-- Writes the characters beyond ASCII in ascending order, of which `next` is the least one left. -/
def encodePoints (label : List Char) : List Nat → Nat → Progress → List Char
  | [], _, p => p.written
  | point :: rest, next, p =>
      let p := { p with delta := p.delta + (point - next) * (p.points + 1) }
      let p := label.foldl (pass point) p
      encodePoints label rest (point + 1) { p with delta := p.delta + 1 }

/-- The code points of a label beyond ASCII, ascending and without repetition. -/
def pointsOf (label : List Char) : List Nat :=
  (((label.map Char.toNat).filter (128 ≤ ·)).mergeSort (· ≤ ·)).foldr
    (fun n rest => if rest.head? = some n then rest else n :: rest) []

/-- A label in ASCII, without the mark in front. -/
def encode (label : List Char) : List Char :=
  let plain := label.filter (·.toNat < 128)
  let start := if plain = [] then [] else plain ++ ['-']
  encodePoints label (pointsOf label) 128 { written := start, points := plain.length }

/-! ### Reading -/

/-- A distance at the start of a text, and the rest. -/
def decodeDistance (bias : Nat) : Nat → Nat → Nat → List Char → Option (Nat × List Char)
  | _, _, _, [] => none
  | position, weight, sum, c :: rest => do
      let d ← digitValue? c
      let t := threshold position bias
      let sum := sum + d * weight
      if d < t then some (sum, rest)
      else decodeDistance bias (position + 36) (weight * (36 - t)) sum rest

/-- Inserts the characters that at most `fuel` distances give into a label. -/
def decodePoints : Nat → Nat → Nat → Nat → Bool → List Char → List Char → Option (List Char)
  | _, _, _, _, _, label, [] => some label
  | 0, _, _, _, _, _, _ => none
  | fuel + 1, point, place, bias, first, label, s => do
      let (delta, rest) ← decodeDistance bias 36 1 0 s
      let size := label.length + 1
      let total := place + delta
      let point := point + total / size
      let at_ := total % size
      if point.isValidChar ∧ 128 ≤ point then
        decodePoints fuel point (at_ + 1) (adapt delta size first) false
          (label.take at_ ++ Char.ofNat point :: label.drop at_) rest
      else none

/-- The label that a text without the mark in front denotes. -/
def decode? (s : List Char) : Option (List Char) :=
  let tail := (s.reverse.takeWhile (· ≠ '-')).reverse
  let plain := (s.take (s.length - tail.length)).dropLast
  if s.all (·.toNat < 128) then decodePoints tail.length 128 0 72 true plain tail else none

end Punycode
end Url
end AccessAudit
