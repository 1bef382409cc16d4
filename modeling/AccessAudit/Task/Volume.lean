import AccessAudit.Task.Question

/-!
# Volume

Addresses and user ids with many events, the most first, with the number of their counterparts and the
period and rate of their events.
-/

namespace AccessAudit
namespace Task

open Store (Event Uid Session)

variable {σ κ δ : Type}

/-- Keys need more events than this to be listed. -/
def minEventCount : Nat := 2500

/-- A listed key. -/
structure VolumeRow (κ : Type) where
  key : κ
  events : Nat
  /-- The number of different counterparts. -/
  counterparts : Nat
  period : Option Double

/-- The listed keys: those with enough events, the most first and equal ones by key, up to a limit. -/
def volumeRows
    (le : κ → κ → Bool) (key : Event → κ) (otherLe : δ → δ → Bool) (other : Event → δ)
    (now : Int) (topN : Nat) (events : List Event) : List (VolumeRow κ) :=
  let busy := (Store.groups le key events).filter fun (_, es) => minEventCount < es.length
  let rows : List (VolumeRow κ) := busy.map fun (k, es) =>
    { key := listedKey key (k, es)
      events := es.length
      counterparts := (Store.distinct otherLe (es.map other)).length
      period := period now es }
  Store.limit topN
    (Store.rankBy
      [Store.descending fun r => (r.events : Int), Store.ascendingBy le fun r => r.key] rows)

/-- The cells of a row after its key. -/
def volumeCells (r : VolumeRow κ) : List String :=
  [Decimal.groupedText r.counterparts, Calendar.periodText r.period,
    Calendar.hourlyRate r.events r.period]

/-- The addresses with the most events, annotated. -/
def topSources (config : Configuration) : Reporting σ := fun (s, c) =>
  let (tables, s) := s.read
  match tables.getEvents with
  | .error e => (.error (Fault.ofStore e), (s, c))
  | .ok events =>
      let rows :=
        volumeRows Store.textLe (·.source) Uid.le (·.uid) s.now config.topN events
      match onlyTexts "src_ipaddr" (rows.map (·.key)) with
      | .error e => (.error (Fault.ofStore e), (s, c))
      | .ok _ =>
          if rows.isEmpty then (.ok [noMatchingData], (s, c))
          else
            let (text, cache) :=
              annotatedTable
                [("event_count", .right), ("src_ipaddr", .left), ("unique_uids", .right),
                  ("period", .right), ("avg_per_hour", .right)]
                (rows.map fun r =>
                  (r.key.toText, Decimal.groupedText r.events :: r.key.toText :: volumeCells r))
                c.cache
            (.ok [text], (s, { c with cache := cache }))

/-- The user ids with the most events. -/
def topUids (config : Configuration) : Reporting σ :=
  onEvents fun s events => do
    let rows :=
      volumeRows Uid.le (·.uid) Store.textLe (·.source) s.now config.topN events
    let keys ← Fault.plain (rows.mapM fun r => integerUid r.key)
    let cells := (keys.zip rows).map fun (key, r) =>
      Decimal.text key :: Decimal.groupedText r.events :: volumeCells r
    let table :=
      tableOf
        [("uid", .left), ("event_count", .right), ("unique_ips", .right), ("period", .right),
          ("avg_per_hour", .right)]
        cells
    .ok [if rows.isEmpty then noMatchingData else table.render]

end Task
end AccessAudit
