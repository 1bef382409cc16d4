import AccessAudit.Task.Question

/-!
# Open sessions

Pairs of a user id and a foreign address with more sessions opened than closed, the most first.
-/

namespace AccessAudit
namespace Task

open Store (Cell Event Uid Session)

variable {σ : Type}

/-- A listed pair. -/
structure OpenRow where
  uid : Uid
  source : Cell
  live : Int
  total : Nat

/-- The order of pairs in which they are gathered. -/
def pairLe (a b : Cell × Uid) : Bool :=
  if a.1 = b.1 then Uid.le a.2 b.2 else Store.textLe a.1 b.1

/-- The listed pairs: those of foreign addresses with sessions left open, up to a limit. -/
def openRows (blocks : List Block) (topN : Nat) (events : List Event) : List OpenRow :=
  let foreign := events.filter fun e => !Block.holdsLogged blocks e.source.toText
  let rows : List OpenRow :=
    (Store.groups pairLe (fun e => (e.source, e.uid)) foreign).map fun ((source, uid), es) =>
      { uid := uid
        source := source
        live := (countKind .openSession es : Int) - countKind .closeSession es
        total := countKind .auth es + countKind .openSession es + countKind .closeSession es }
  Store.limit topN
    (Store.rankBy
      [Store.descending fun r => r.live, Store.descending fun r => (r.total : Int),
        Store.ascendingBy Uid.le fun r => r.uid, Store.ascendingBy Store.textLe fun r => r.source]
      (rows.filter fun r => 0 < r.live))

/-- The user ids of the listed pairs; each event is asked first whether its address is a local one. -/
def openUids (blocks : List Block) (topN : Nat) (events : List Event) : Except Store.Fault (List Int) := do
  onlyAddresses topN (events.map (·.source))
  (openRows blocks topN events).mapM fun r => integerUid r.uid

/-- The pairs with the most open sessions, annotated. -/
def openForeignSessions (config : Configuration) : Reporting σ := fun (s, c) =>
  let (tables, s) := s.read
  match tables.getEvents with
  | .error e => (.error (Fault.ofStore e), (s, c))
  | .ok events =>
      let rows := openRows s.localNetworks config.topN events
      match openUids s.localNetworks config.topN events with
      | .error e => (.error (Fault.ofStore e), (s, c))
      | .ok uids =>
          if rows.isEmpty then (.ok [noMatchingData], (s, c))
          else
            let (text, cache) :=
              annotatedTable
                [("uid", .left), ("src_ipaddr", .left), ("live_sessions", .right),
                  ("total_events", .right)]
                ((uids.zip rows).map fun (uid, r) =>
                  (r.source.toText,
                    [Decimal.text uid, r.source.toText, Decimal.groupedText r.live,
                      Decimal.groupedText r.total]))
                c.cache
            (.ok [text], (s, { c with cache := cache }))

end Task
end AccessAudit
