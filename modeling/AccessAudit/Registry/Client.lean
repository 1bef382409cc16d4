import AccessAudit.Registry.Response
import AccessAudit.Url

/-!
# Asking a registry

A registry serves what it knows of an address under the address's text, at the end of a base that has a
slash at the end of its path.  It may know nothing, which is no failure.
-/

namespace AccessAudit
namespace Registry

/-- The registry that is asked unless another one is given. -/
def defaultBase : String := "https://rdap.org/ip/"

/-- The base that a text denotes. -/
def baseOf (text : String) (domains : Url.Domains := Url.Domain.toAscii?) : Except Url.Fault Url :=
  (Url.ofText domains text).map fun u => { u with path := u.path.withSlash }

/-- The links of the failure to read a base. -/
def baseFaultLinks (text : String) (f : Url.Fault) : List String :=
  [s!"Invalid RDAP URL '{text}'", f.message]

/-- Where an address is asked about: what the text of the base denotes with the address's text behind it. -/
def queryUrl (domains : Url.Domains) (base : Url) (a : Address) : Except Url.Fault Url :=
  Url.ofText domains (base.text ++ a.text)

/-- Whether an address of a resource can be requested. -/
def canRequest (u : Url) : Bool :=
  u.hasHost && (u.scheme = "http".toList || u.scheme = "https".toList) &&
    match u.host with
    | some (.name text) => text.all fun c => !("\"`\x7b\x7d".toList.contains c)
    | _ => true

/-- What a request comes to. -/
inductive Exchange
  | failed
  | answered (status : Nat) (reason body : String)
  deriving Repr, DecidableEq

/-- Why a lookup failed. -/
inductive LookupFault
  | unreadable (fault : Url.Fault)
  | notRequestable (url : Url)
  | unanswered (url : Url)
  | refused (status : Nat) (reason : String) (url : Url)
  | response (fault : ResponseFault)

/-- The wording of a failed lookup. -/
def LookupFault.message : LookupFault → String
  | .unreadable _ => "Failed to build RDAP query URL"
  | .notRequestable url => "builder error for url (" ++ url.text ++ ")"
  | .unanswered url => "error sending request for url (" ++ url.text ++ ")"
  | .refused status reason url =>
      "HTTP status " ++ (if status < 500 then "client" else "server") ++
        s!" error ({status} {reason}) for url (" ++ url.text ++ ")"
  | .response fault => fault.message

/-- The links of a failed lookup. -/
def LookupFault.links : LookupFault → List String
  | .unreadable fault => [(LookupFault.unreadable fault).message, fault.message]
  | f => [f.message]

/-- What is requested for an address: where it is asked about, without a login. -/
def request (domains : Url.Domains) (base : Url) (a : Address) : Except LookupFault Url :=
  match queryUrl domains base a with
  | .error f => .error (.unreadable f)
  | .ok u =>
      let url := { u with user := [], password := [] }
      if canRequest url then .ok url else .error (.notRequestable url)

/-- What comes back from a request. -/
def received (url : Url) : Exchange → Except LookupFault (Option Record)
  | .failed => .error (.unanswered url)
  | .answered status reason body =>
      if status = 404 then .ok none
      else if 400 ≤ status ∧ status < 600 then .error (.refused status reason url)
      else
        match recordOf body with
        | .ok r => .ok (some r)
        | .error f => .error (.response f)

/-- Looks an address up, where a function tells what each request comes to. -/
def lookup (serve : Url → Exchange) (base : Url) (domains : Url.Domains := Url.Domain.toAscii?) (a : Address) :
    Except LookupFault (Option Record) := do
  let url ← request domains base a
  received url (serve url)

/-- The answer of a lookup to the cache. -/
def answer : Except LookupFault (Option Record) → Answer
  | .ok (some r) => .record r
  | .ok none => .nothing
  | .error f => .failure f.links

end Registry
end AccessAudit
