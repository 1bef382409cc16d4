import AccessAudit.Decimal.Numeral
import AccessAudit.Text.Blank

/-!
# Internet addresses

Addresses of both families as words of 32 and 128 bits, their reader and their canonical text.  A
128-bit address is written as eight groups of four hexadecimal digits.  The canonical text drops
leading zeros, leaves out the first longest run of at least two zero groups, and writes the last 32
bits of an IPv4-mapped address in dotted form.
-/

namespace AccessAudit

/-- An internet address. -/
inductive Address
  | v4 (bits : BitVec 32)
  | v6 (bits : BitVec 128)
  deriving DecidableEq

namespace Address

/-- The number of bits of the address's family. -/
def width : Address → Nat
  | .v4 _ => 32
  | .v6 _ => 128

/-! ### Dotted form -/

/-- An octet: one to three digits, without a leading zero, at most 255. -/
def octet? (s : List Char) : Option Nat :=
  if s.length ≤ 3 ∧ (s.head? ≠ some '0' ∨ s.length = 1) ∧ s ≠ [] then
    match Decimal.readDigits 255 .tooLarge 0 s with
    | .ok n => some n
    | .error _ => none
  else none

/-- The 32-bit number of four octets with dots between them. -/
def dotted? (s : List Char) : Option Nat :=
  match (Text.splitAll '.' s).map octet? with
  | [some a, some b, some c, some d] => some (((a * 256 + b) * 256 + c) * 256 + d)
  | _ => none

/-- The dotted form of a 32-bit number. -/
def dotted (n : Nat) : List Char :=
  Decimal.digits (n / 0x1000000) ++ '.' :: Decimal.digits (n / 0x10000 % 256) ++
    '.' :: Decimal.digits (n / 0x100 % 256) ++ '.' :: Decimal.digits (n % 256)

/-! ### Groups of hexadecimal digits -/

/-- The value of a hexadecimal digit. -/
def hexValue? (c : Char) : Option Nat :=
  if '0' ≤ c ∧ c ≤ '9' then some (c.toNat - '0'.toNat)
  else if 'a' ≤ c ∧ c ≤ 'f' then some (c.toNat - 'a'.toNat + 10)
  else if 'A' ≤ c ∧ c ≤ 'F' then some (c.toNat - 'A'.toNat + 10)
  else none

/-- The value of a text of hexadecimal digits. -/
def hex? (s : List Char) : Option Nat :=
  s.foldl (fun n c => do return (← n) * 16 + (← hexValue? c)) (some 0)

/-- A group: one to four hexadecimal digits. -/
def group? (s : List Char) : Option Nat :=
  if s ≠ [] ∧ s.length ≤ 4 then hex? s else none

/-- The groups of a list of pieces; the last piece may be a dotted form, which makes two groups,
where `dottedEnd` allows it. -/
def groupsOfPieces? (dottedEnd : Bool) : List (List Char) → Option (List Nat)
  | [] => some []
  | [piece] =>
      match group? piece with
      | some g => some [g]
      | none =>
          if dottedEnd then (dotted? piece).map fun n => [n / 0x10000, n % 0x10000] else none
  | piece :: rest => do
      let g ← group? piece
      let gs ← groupsOfPieces? dottedEnd rest
      return g :: gs

/-- The groups of a text with single colons between them; the empty text has none. -/
def groups? (dottedEnd : Bool) (s : List Char) : Option (List Nat) :=
  if s = [] then some [] else groupsOfPieces? dottedEnd (Text.splitAll ':' s)

/-- The text cut at the first double colon, which is dropped. -/
def splitGap : List Char → Option (List Char × List Char)
  | ':' :: ':' :: rest => some ([], rest)
  | c :: rest => (splitGap rest).map fun (before, after) => (c :: before, after)
  | [] => none

/-- The number whose groups are given, the first being the most significant. -/
def ofGroups (gs : List Nat) : Nat :=
  gs.foldl (fun n g => n * 0x10000 + g) 0

/-- The 128-bit number of a text of eight groups, where a double colon stands for the zero groups
that are missing, of which there is at least one. -/
def grouped? (s : List Char) : Option Nat :=
  match splitGap s with
  | none => do
      let gs ← groups? true s
      if gs.length = 8 then some (ofGroups gs) else none
  | some (before, after) => do
      let front ← groups? false before
      let back ← groups? true after
      let missing := 8 - (front.length + back.length)
      if front.length + back.length ≤ 7 then
        some (ofGroups (front ++ List.replicate missing 0 ++ back))
      else none

/-- The address that a whole text denotes. -/
def ofText? (s : List Char) : Option Address :=
  match dotted? s with
  | some n => some (.v4 (BitVec.ofNat 32 n))
  | none => (grouped? s).map fun n => .v6 (BitVec.ofNat 128 n)

/-! ### Canonical text -/

/-- The eight groups of a 128-bit number. -/
def groupsOf (n : Nat) : List Nat :=
  (List.range 8).map fun i => n / Nat.pow 0x10000 (7 - i) % 0x10000

/-- A group without leading zeros. -/
def hexText (n : Nat) : List Char :=
  Nat.toDigits 16 n

/-- The length of the run of zeros at the start of a list of groups. -/
def zeroRun (gs : List Nat) : Nat :=
  (gs.takeWhile (· = 0)).length

/-- Start and length of the first longest run of zero groups from position `start` on. -/
def longestRun : Nat → List Nat → Nat × Nat
  | start, [] => (start, 0)
  | start, g :: gs =>
      let here := zeroRun (g :: gs)
      let later := longestRun (start + 1) gs
      if later.2 ≤ here then (start, here) else later

/-- Groups with colons between them. -/
def joinGroups (gs : List Nat) : List Char :=
  List.intercalate [':'] (gs.map hexText)

/-- Groups with the first longest run of at least two zeros left out. -/
def compressed (n : Nat) : List Char :=
  let gs := groupsOf n
  let (start, count) := longestRun 0 gs
  if 2 ≤ count then
    joinGroups (gs.take start) ++ [':', ':'] ++ joinGroups (gs.drop (start + count))
  else joinGroups gs

/-- The canonical text of a 128-bit number. -/
def groupedText (n : Nat) : List Char :=
  if n / 0x100000000 = 0xFFFF then "::ffff:".toList ++ dotted (n % 0x100000000) else compressed n

/-- The canonical text of an address. -/
def chars : Address → List Char
  | .v4 bits => dotted bits.toNat
  | .v6 bits => groupedText bits.toNat

/-- The canonical text of an address. -/
def text (a : Address) : String :=
  String.ofList a.chars

/-- The address that a logged text names: what stands before the first slash, without surrounding
blanks. -/
def ofLogged? (s : String) : Option Address :=
  let before :=
    match Text.splitOnce '/' s.toList with
    | some (before, _) => before
    | none => s.toList
  ofText? (Text.trim before)

end Address
end AccessAudit
