import AccessAudit.Decimal.Numeral
import AccessAudit.Network.Address
import AccessAudit.Store.Fault
import AccessAudit.Text.Blank

/-!
# Where a database is

A database is named by a path or by a `file:` address, whose parameters may narrow the access.  The
empty path and `:memory:` name databases that no other connection sees and that leave nothing behind.
-/

namespace AccessAudit
namespace Store

/-- The access that is asked for. -/
structure Access where
  write : Bool
  create : Bool
  deriving Repr, DecidableEq

/-- Where a database is. -/
inductive Location
  /-- In memory, or in a file that vanishes; the name of its journal is given. -/
  | transient (journal : String)
  /-- In a file. -/
  | file (path : String) (access : Access)
  deriving Repr, DecidableEq

namespace Location

/-- Replaces each percent sign and two hexadecimal digits by the byte they denote. -/
def unescape : List Char → List Nat
  | '%' :: a :: b :: rest =>
      match Address.hexValue? a, Address.hexValue? b with
      | some x, some y => (x * 16 + y) :: unescape rest
      | _, _ => '%'.toNat :: unescape (a :: b :: rest)
  | c :: rest => (String.singleton c).toUTF8.toList.map (·.toNat) ++ unescape rest
  | [] => []

/-- The text of bytes; bytes that are no text are left out. -/
def textOfBytes (bytes : List Nat) : String :=
  (String.fromUTF8? (ByteArray.mk (bytes.map UInt8.ofNat).toArray)).getD ""

/-- The part of an address that an escaped text denotes. -/
def decode (s : List Char) : String :=
  textOfBytes (unescape s)

/-- The pairs of names and values behind the question mark of an address. -/
def parameters (query : List Char) : List (String × String) :=
  (Text.splitAll '&' query).filterMap fun piece =>
    match Text.splitOnce '=' piece with
    | some (name, value) => some (decode name, decode value)
    | none => if piece = [] then none else some (decode piece, "")

/-- The access after a parameter. -/
def narrow (allowed : Access) (state : Access × Bool) : String × String →
    Except Fault (Access × Bool)
  | ("mode", "ro") => .ok (⟨false, false⟩, state.2)
  | ("mode", "rw") => .ok (⟨true, false⟩, state.2)
  | ("mode", "rwc") =>
      if allowed.create then .ok (⟨true, true⟩, state.2) else .error (.accessNotAllowed "rwc")
  | ("mode", "memory") => .ok (state.1, true)
  | ("mode", other) => .error (.noSuchAccess "access" other)
  | ("cache", "shared") => .ok state
  | ("cache", "private") => .ok state
  | ("cache", other) => .error (.noSuchAccess "cache" other)
  | _ => .ok state

/-- The location that a plain path names. -/
def ofPath (access : Access) (path : String) : Location :=
  if path = "" then .transient "delete"
  else if path = ":memory:" then .transient "memory"
  else .file path access

/-- The path of an address after its authority, which may only be this machine. -/
def dropAuthority (s : List Char) : List Char :=
  match s with
  | '/' :: '/' :: rest => rest.dropWhile (· ≠ '/')
  | _ => s

/-- The location that a text names. -/
def ofText (access : Access) (text : String) : Except Fault Location := do
  match "file:".toList.isPrefixOf? text.toList with
  | none => return ofPath access text
  | some rest =>
      let rest := (dropAuthority rest).takeWhile (· ≠ '#')
      let path := rest.takeWhile (· ≠ '?')
      let query := (rest.dropWhile (· ≠ '?')).drop 1
      let (access, inMemory) ← (parameters query).foldlM (narrow access) (access, false)
      return if inMemory then .transient "memory" else ofPath access (decode path)

end Location
end Store
end AccessAudit
