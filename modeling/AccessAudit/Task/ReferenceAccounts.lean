import AccessAudit.Task.Question

/-!
# Reference accounts

Accounts of the directory that opened sessions from foreign addresses, ranked by the number of all
their addresses times the number of the foreign ones.  Under the table the foreign addresses of each
account are listed by the organization they belong to.
-/

namespace AccessAudit
namespace Task

open Store (Cell Event Uid Session)

variable {σ : Type}

/-- A listed account. -/
structure AccountRow where
  uid : Int
  /-- The number of its addresses. -/
  addresses : Nat
  /-- The number of its foreign addresses. -/
  foreign : Nat
  deriving Repr, DecidableEq

/-- The rank of an account. -/
def AccountRow.score (r : AccountRow) : Nat :=
  r.addresses * r.foreign

/-- The openings of sessions by accounts of the reference set, each with its user id. -/
def accountOpenings (reference : List Int) (events : List Event) : List (Int × Event) :=
  events.filterMap fun e =>
    match e.uid with
    | .integer n => if e.kind = .openSession ∧ reference.contains n then some (n, e) else none
    | _ => none

/-- The addresses of events that lie in no local network. -/
def foreignSources (blocks : List Block) (events : List Event) : List Cell :=
  (events.map (·.source)).filter fun source => !Block.holdsLogged blocks source.toText

/-- The listed accounts: those with foreign addresses, the highest score first and equal ones by user
id, up to a limit. -/
def accountRows (blocks : List Block) (reference : List Int) (topN : Nat) (events : List Event) :
    List AccountRow :=
  let rows : List AccountRow :=
    (Store.groups (fun a b => a ≤ b) (·.1) (accountOpenings reference events)).map fun (uid, es) =>
      let es := es.map (·.2)
      { uid := uid
        addresses := (Store.distinct Store.textLe (es.map (·.source))).length
        foreign := (Store.distinct Store.textLe (foreignSources blocks es)).length }
  Store.limit topN
    (Store.rankBy
      [Store.descending fun r => (r.score : Int), Store.ascending fun r => r.uid]
      (rows.filter fun r => 0 < r.foreign))

/-- The foreign addresses from which an account opened sessions, ascending. -/
def foreignSourcesOf (blocks : List Block) (uid : Int) (events : List Event) : List Cell :=
  Store.distinct Store.textLe
    (foreignSources blocks
      (events.filter fun e => e.uid.isInteger uid && e.kind = .openSession))

/-- The name under which an address is listed: the description of its network, with the country if
that is known. -/
def orgLabel (r : Record) : String :=
  if r.description = "" then "(unknown organization)"
  else if r.country = "" then r.description
  else r.description ++ " (" ++ r.country ++ ")"

/-- The lines of the addresses of an account: one for each organization. -/
def orgLines (labelled : List (String × String)) : List String :=
  (Store.groups Store.textLe (·.1) labelled).map fun (label, rows) =>
    label ++ ": " ++ String.intercalate ", " (rows.map (·.2))

/-- The list of an account's foreign addresses. -/
def accountList (blocks : List Block) (events : List Event) (uid : Int) (cache : Cache σ) :
    String × Cache σ :=
  let sources := (foreignSourcesOf blocks uid events).map Cell.toText
  let (records, cache) := cache.annotateAll sources
  (bulletList ("    - uid \"" ++ Decimal.text uid ++ "\", sessions opened from foreign IPs:")
    (orgLines ((records.map orgLabel).zip sources)), cache)

/-- The lists of several accounts, made one after the other. -/
def accountLists (blocks : List Block) (events : List Event) :
    List Int → Cache σ → List String × Cache σ
  | [], cache => ([], cache)
  | uid :: rest, cache =>
      let (text, cache) := accountList blocks events uid cache
      let (texts, cache) := accountLists blocks events rest cache
      (text :: texts, cache)

/-- The table of accounts. -/
def accountTable (rows : List AccountRow) : String :=
  (tableOf
    [("uid", .left), ("unique_ips", .right), ("foreign_ips", .right), ("score", .right)]
    (rows.map fun r =>
      [Decimal.text r.uid, Decimal.groupedText r.addresses, Decimal.groupedText r.foreign,
        Decimal.groupedText r.score])).render

/-- The block that stands in for the report while there is no reference set. -/
def referenceUnavailable : String := "Reference user list unavailable; report skipped."

/-- The accounts of the directory with foreign sessions. -/
def foreignByAccount (config : Configuration) : Reporting σ := fun (s, c) =>
  if !c.referenceLoaded then (.ok [referenceUnavailable], (s, c))
  else
    let (tables, s) := s.read
    match tables.getEvents, s.getReference with
    | .error e, _ => (.error (Fault.ofStore e), (s, c))
    | .ok _, .error e => (.error (Fault.ofStore e), (s, c))
    | .ok events, .ok reference =>
        let rows := accountRows s.localNetworks reference config.topN events
        match onlyAddresses config.topN ((accountOpenings reference events).map (·.2.source)) with
        | .error e => (.error (Fault.ofStore e), (s, c))
        | .ok _ =>
            if rows.isEmpty then (.ok [noMatchingData], (s, c))
            else
              let (lists, cache) :=
                accountLists s.localNetworks events (rows.map (·.uid)) c.cache
              (.ok (accountTable rows :: lists), (s, { c with cache := cache }))

end Task
end AccessAudit
