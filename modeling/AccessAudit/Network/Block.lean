import AccessAudit.Network.Address

/-!
# Address blocks

A block is an address and the number of its leading bits that every member shares.  The other bits
of the address are kept as they were written but never matter for membership.
-/

namespace AccessAudit

/-- A block of addresses of one family. -/
structure Block where
  network : Address
  length : Nat
  length_le : length ≤ network.width
  deriving DecidableEq

/-- Why a text is no block. -/
inductive BlockFault
  | notAddress (text : String)
  | notLength (text : String) (fault : Decimal.NumeralFault)
  | tooLong (length width : Nat) (text : String)
  deriving Repr, DecidableEq

/-- The wording of a fault. -/
def BlockFault.message : BlockFault → String
  | .notAddress text => s!"Invalid network address '{text}': invalid IP address syntax"
  | .notLength text fault => s!"Invalid prefix length '{text}': " ++ fault.message
  | .tooLong length width text => s!"Prefix length {length} exceeds {width} bits in '{text}'"

namespace Block

/-! ### Masks

The bits that members share are picked out by a mask.  It is worked out in words of 128 bits for
either family, and a step that would leave the words has no result.
-/

/-- A word with one bit set, at a place within the word. -/
def bitAt? (n : Nat) : Option (BitVec 128) :=
  if n < 128 then some (1 <<< n) else none

/-- The word before another one. -/
def predecessor? (w : BitVec 128) : Option (BitVec 128) :=
  if w = 0 then none else some (w - 1)

/-- The bits of a width after its leading ones. -/
def bitsAfter? (width length : Nat) : Option Nat :=
  if length ≤ width then some (width - length) else none

/-- The word in which the lowest `width` bits are set. -/
def lowestBits? (width : Nat) : Option (BitVec 128) :=
  if width = 128 then some (BitVec.allOnes 128) else (bitAt? width).bind predecessor?

/-- The word in which the `length` leading ones of the lowest `width` bits are set. -/
def maskWord? (width length : Nat) : Option (BitVec 128) :=
  if length = 0 then some 0
  else do
    let all ← lowestBits? width
    let n ← bitsAfter? width length
    let rest ← (bitAt? n).bind predecessor?
    return all &&& ~~~rest

/-- The mask of a family of addresses, cut out of its word.  The lengths of blocks are such that no
step fails. -/
def mask (width length : Nat) : BitVec width :=
  ((maskWord? width length).getD 0).setWidth width

/-- Whether the leading bits of an address are those of the block. -/
def contains (b : Block) (a : Address) : Bool :=
  match b.network, a with
  | .v4 net, .v4 bits => net &&& mask 32 b.length == bits &&& mask 32 b.length
  | .v6 net, .v6 bits => net &&& mask 128 b.length == bits &&& mask 128 b.length
  | _, _ => false

/-- The block that a text denotes: an address, and after a slash the number of shared bits.
Without a slash the block is the one address.  Blanks around either part are skipped. -/
def ofText (s : String) : Except BlockFault Block :=
  let (before, after) :=
    match Text.splitOnce '/' s.toList with
    | some (before, after) => (before, some after)
    | none => (s.toList, none)
  match Address.ofText? (Text.trim before) with
  | none => .error (.notAddress (String.ofList before))
  | some network =>
      match after with
      | none => .ok ⟨network, network.width, Nat.le_refl _⟩
      | some after =>
          match Decimal.readNat 255 (Text.trim after) with
          | .error fault => .error (.notLength (String.ofList after) fault)
          | .ok length =>
              if h : length ≤ network.width then .ok ⟨network, length, h⟩
              else .error (.tooLong length network.width s)

/-- The text of a block: its address, a slash and the number of shared bits. -/
def text (b : Block) : String :=
  String.ofList (b.network.chars ++ '/' :: Decimal.digits b.length)

/-- Whether an address lies in one of the blocks. -/
def anyContains (blocks : List Block) (a : Address) : Bool :=
  blocks.any fun b => b.contains a

/-- Whether a logged text names an address in one of the blocks.  A text that is no address lies
in none. -/
def holdsLogged (blocks : List Block) (s : String) : Bool :=
  match Address.ofLogged? s with
  | some a => anyContains blocks a
  | none => false

/-- The texts of the networks that count as local where nothing else is configured. -/
def defaultLocalTexts : List String :=
  ["10.0.0.0/8", "172.16.0.0/12", "192.168.0.0/16", "127.0.0.0/8", "::1/128", "fc00::/7"]

/-- The networks that count as local where nothing else is configured. -/
def defaultLocal : List Block :=
  defaultLocalTexts.filterMap fun s => (ofText s).toOption

end Block
end AccessAudit
