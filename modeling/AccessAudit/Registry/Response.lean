import AccessAudit.Enrichment.Cache
import AccessAudit.Registry.Json

/-!
# What a registry knows of a network

A registry describes the network of an address by members of an object.  Known members have to be of
their type and may stand in any order; other members are passed over.  The same parts may also come as a
list in a fixed order.
-/

namespace AccessAudit
namespace Registry

/-- A block of addresses that belongs to a network. -/
structure Range where
  v4 : Option String := none
  v6 : Option String := none
  length : Option Nat := none
  deriving Repr, DecidableEq

/-- A network as a registry describes it. -/
structure Network where
  handle : Option String := none
  name : Option String := none
  country : Option String := none
  first : Option String := none
  last : Option String := none
  ranges : List Range := []
  deriving Repr, DecidableEq

/-- Why a response gives no record. -/
inductive ResponseFault
  | malformed
  | nameless
  deriving Repr, DecidableEq

/-- The wording of a fault. -/
def ResponseFault.message : ResponseFault → String
  | .malformed => "Malformed RDAP response"
  | .nameless => "RDAP response carried no network name or handle"

/-! ### Members -/

/-- Access to the members of an object by their names: every name is a text, and none of the known
names occurs twice. -/
def memberAccess (known : List String) (members : List (Option String × Json)) :
    Option (String → Option Json) :=
  if members.any fun (key, _) => key.isNone then none
  else if known.any fun name => 1 < members.countP fun (key, _) => key = some name then none
  else some fun name => (members.find? fun (key, _) => key = some name).map (·.2)

/-- A text that may be missing or null. -/
def text? : Option Json → Option (Option String)
  | none => some none
  | some .null => some none
  | some (.string (some s)) => some (some s)
  | some _ => none

/-- A length from 0 to 255 that may be missing or null. -/
def length? : Option Json → Option (Option Nat)
  | none => some none
  | some .null => some none
  | some (.natural n) => if n ≤ 255 then some (some n) else none
  | some _ => none

/-- A block from its members. -/
def rangeOf (v4 v6 length : Option Json) : Option Range := do
  return ⟨← text? v4, ← text? v6, ← length? length⟩

/-- A block. -/
def range? : Json → Option Range
  | .object members => do
      let get ← memberAccess ["v4prefix", "v6prefix", "length"] members
      rangeOf (get "v4prefix") (get "v6prefix") (get "length")
  | .array [v4, v6, length] => rangeOf (some v4) (some v6) (some length)
  | _ => none

/-- Blocks, of which there are none if the list is missing. -/
def ranges? : Option Json → Option (List Range)
  | none => some []
  | some (.array items) => items.mapM range?
  | some _ => none

/-- A network from its members. -/
def networkOf (handle name country first last ranges : Option Json) : Option Network := do
  return ⟨← text? handle, ← text? name, ← text? country, ← text? first, ← text? last,
    ← ranges? ranges⟩

/-- The names of the members of a network. -/
def knownMembers : List String :=
  ["handle", "name", "country", "startAddress", "endAddress", "cidr0_cidrs"]

/-- A network. -/
def network? : Json → Option Network
  | .object members => do
      let get ← memberAccess knownMembers members
      networkOf (get "handle") (get "name") (get "country") (get "startAddress") (get "endAddress")
        (get "cidr0_cidrs")
  | .array [handle, name, country, first, last] =>
      networkOf (some handle) (some name) (some country) (some first) (some last) none
  | .array [handle, name, country, first, last, ranges] =>
      networkOf (some handle) (some name) (some country) (some first) (some last) (some ranges)
  | _ => none

/-! ### Records -/

/-- The text of a block that has a length and a prefix, of which one of the shorter kind is preferred. -/
def Range.text? (r : Range) : Option String :=
  match r.v4.or r.v6, r.length with
  | some base, some length => some s!"{base}/{length}"
  | _, _ => none

/-- The extent of a network: its blocks, or else its first and last address. -/
def Network.extent (n : Network) : String :=
  match n.ranges.filterMap Range.text?, n.first, n.last with
  | [], some first, some last => first ++ " - " ++ last
  | blocks, _, _ => String.intercalate ", " blocks

/-- The record of a network, which needs a name or a handle. -/
def Network.record (n : Network) : Except ResponseFault Record :=
  match n.name.or n.handle with
  | none => .error .nameless
  | some description =>
      .ok { cidr := n.extent, country := n.country.getD "", description := description }

/-- The record that a response gives. -/
def recordOf (body : String) : Except ResponseFault Record :=
  match (Json.ofText? body).bind network? with
  | none => .error .malformed
  | some n => n.record

end Registry
end AccessAudit
