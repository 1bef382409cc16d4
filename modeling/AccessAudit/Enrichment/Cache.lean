import AccessAudit.Network.Address

/-!
# Organization records and their cache

An address is described by asking a source, and what the source found is remembered for the rest of a
run.  Only records are remembered: an address without information, or whose lookup failed, is asked
about again.  Beside the records the cache keeps the set of country codes that it has seen.
-/

namespace AccessAudit

/-- What is known of the network that an address belongs to. -/
structure Record where
  cidr : String := ""
  country : String := ""
  description : String := ""
  deriving Repr, DecidableEq

/-- What a source answers about an address. -/
inductive Answer
  | record (r : Record)
  | nothing
  | failure (links : List String)
  deriving Repr, DecidableEq

/-- The records known so far in a run, and the source that is asked for more.  The source is a function
of a state of its own, so its answers may change from call to call. -/
structure Cache (σ : Type) where
  ask : σ → Address → Answer × σ
  source : σ
  records : List (Address × Record) := []
  /-- The country codes of the records, ascending and without repetition. -/
  countries : List String := []

namespace Cache

variable {σ : Type}

/-- The set with a further member, in ascending order. -/
def insertCountry (country : String) : List String → List String
  | [] => [country]
  | c :: rest =>
      if country < c then country :: c :: rest
      else if country = c then c :: rest
      else c :: insertCountry country rest

/-- The cache after a record was found. -/
def remember (c : Cache σ) (a : Address) (r : Record) : Cache σ :=
  { c with
    records := c.records ++ [(a, r)]
    countries := if r.country = "" then c.countries else insertCountry r.country c.countries }

/-- The record of an address: the remembered one, or else what the source finds now. -/
def lookup (c : Cache σ) (a : Address) : Option Record × Cache σ :=
  match c.records.lookup a with
  | some r => (some r, c)
  | none =>
      let (answer, source) := c.ask c.source a
      let c := { c with source := source }
      match answer with
      | .record r => (some r, c.remember a r)
      | .nothing | .failure _ => (none, c)

/-- The record of a logged text; blank for a text that is no address or an address of which nothing is
known. -/
def annotate (c : Cache σ) (text : String) : Record × Cache σ :=
  match Address.ofLogged? text with
  | none => ({}, c)
  | some a =>
      let (found, c) := c.lookup a
      (found.getD {}, c)

/-- The records of texts that are annotated one after the other. -/
def annotateAll (c : Cache σ) : List String → List Record × Cache σ
  | [] => ([], c)
  | text :: rest =>
      let (r, c) := c.annotate text
      let (rs, c) := c.annotateAll rest
      (r :: rs, c)

/-- For each country code seen, the number of remembered addresses with it. -/
def countryCounts (c : Cache σ) : List (String × Nat) :=
  c.countries.map fun country =>
    (country, c.records.countP fun (_, r) => r.country = country)

/-- The number of remembered addresses. -/
def size (c : Cache σ) : Nat :=
  c.records.length

end Cache
end AccessAudit
