import AccessAudit.Url.Domain
import AccessAudit.Url.Escape

/-!
# Hosts

The host of an address of a resource is a domain or an internet address.  A domain is read by the reader
of domains at hand.  One whose last label is a number has to be an IPv4 address, whose numbers may also
be octal or hexadecimal and of which the last one fills up the remaining bytes.
-/

namespace AccessAudit
namespace Url

/-- Why a text is no address of a resource. -/
inductive Fault
  | relative
  | emptyHost
  | internationalName
  | portNumber
  | ipv4
  | ipv6
  | domainCharacter
  deriving Repr, DecidableEq

/-- The wording of a fault. -/
def Fault.message : Fault → String
  | .relative => "relative URL without a base"
  | .emptyHost => "empty host"
  | .internationalName => "invalid international domain name"
  | .portNumber => "invalid port number"
  | .ipv4 => "invalid IPv4 address"
  | .ipv6 => "invalid IPv6 address"
  | .domainCharacter => "invalid domain character"

/-- A host. -/
inductive Host
  | name (text : List Char)
  | v4 (bits : BitVec 32)
  | v6 (bits : BitVec 128)
  deriving DecidableEq

namespace Host

/-- The text of a host. -/
def chars : Host → List Char
  | .name text => text
  | .v4 bits => Address.dotted bits.toNat
  | .v6 bits => '[' :: (Address.compressed bits.toNat ++ [']'])

/-- A host in brackets, or none if the text is not in brackets. -/
def bracketed? (s : List Char) : Option (Except Fault Host) :=
  match s with
  | '[' :: rest =>
      some <|
        if rest.getLast? = some ']' then
          match Address.grouped? rest.dropLast with
          | some n => .ok (.v6 (BitVec.ofNat 128 n))
          | none => .error .ipv6
        else .error .ipv6
  | _ => none

/-! ### Numbers -/

/-- The value of a number in its notation: decimal, octal after a zero, hexadecimal after `0x`. -/
def number? (s : List Char) : Option Nat :=
  let value (base : Nat) (digits : List Char) : Option Nat :=
    digits.foldl
      (fun n c => do
        let d ← Address.hexValue? c
        if d < base then return (← n) * base + d else none)
      (some 0)
  match s with
  | [] => none
  | '0' :: 'x' :: rest | '0' :: 'X' :: rest => value 16 rest
  | '0' :: c :: rest => value 8 (c :: rest)
  | digits => value 10 digits

/-- The pieces of a domain between its dots, without an empty one at the end. -/
def pieces (s : List Char) : List (List Char) :=
  let all := Text.splitAll '.' s
  if all.getLast? = some [] ∧ 1 < all.length then all.dropLast else all

/-- Whether the last label of a domain is a number. -/
def endsInNumber (s : List Char) : Bool :=
  match (pieces s).getLast? with
  | none | some [] => false
  | some last => last.all Char.isDigit || (number? last).isSome

/-- The number of an IPv4 address. -/
def ipv4? (s : List Char) : Option Nat := do
  let numbers ← (pieces s).mapM number?
  let last ← numbers.getLast?
  let front := numbers.dropLast
  if numbers.length ≤ 4 ∧ front.all (· < 256) ∧ last < Nat.pow 256 (4 - front.length) then
    some (front.foldl (fun n x => n * 256 + x) 0 * Nat.pow 256 (4 - front.length) + last)
  else none

/-- The host of an address whose scheme knows domains. -/
def ofText (domains : Domains) (s : List Char) : Except Fault Host :=
  match bracketed? s with
  | some host => host
  | none =>
      match domains (unescape s) with
      | none => .error .internationalName
      | some [] => .error .emptyHost
      | some text =>
          if endsInNumber text then
            match ipv4? text with
            | some n => .ok (.v4 (BitVec.ofNat 32 n))
            | none => .error .ipv4
          else .ok (.name text)

/-- A character that has no place in the host of an address with any other scheme. -/
def isForbiddenPlain (c : Char) : Bool :=
  c.toNat = 0 || " #/:<>?@[\\]^|".toList.contains c

/-- The host of an address with any other scheme. -/
def ofPlainText (s : List Char) : Except Fault Host :=
  match bracketed? s with
  | some host => host
  | none =>
      if s.any isForbiddenPlain then .error .domainCharacter else .ok (.name (escape .bare s))

end Host
end Url
end AccessAudit
