import AccessAudit.Task.Question

/-!
# Success rates

Addresses and user ids that opened few sessions for the number of their authentications, the least
successful first.  Under the table the counterparts of each key's sessions are listed.
-/

namespace AccessAudit
namespace Task

open Store (Cell Event Uid Session)

variable {σ κ δ : Type}

/-- A listed key. -/
structure RatioRow (κ : Type) where
  key : κ
  sessions : Nat
  auths : Nat
  /-- The number of different counterparts. -/
  counterparts : Nat
  period : Option Double

/-- Sessions for each authentication. -/
def RatioRow.ratio (r : RatioRow κ) : Double :=
  Double.ofInt r.sessions / Double.ofInt r.auths

/-- The order of ratios. -/
def ratioLe (a b : Double) : Bool :=
  !(b.lt a)

/-- The listed keys: those with authentications and sessions whose ratio lies below the threshold, the
lowest first and equal ones by key, up to a limit. -/
def ratioRows
    (le : κ → κ → Bool) (key : Event → κ) (otherLe : δ → δ → Bool) (other : Event → δ)
    (now : Int) (config : Configuration) (events : List Event) : List (RatioRow κ) :=
  let rows : List (RatioRow κ) :=
    (Store.groups le key events).map fun (k, es) =>
      { key := listedKey key (k, es)
        sessions := countKind .openSession es
        auths := countKind .auth es
        counterparts := (Store.distinct otherLe (es.map other)).length
        period := period now es }
  let low := rows.filter fun r =>
    0 < r.auths && 0 < r.sessions && r.ratio.lt config.threshold
  Store.limit config.topN
    (Store.rankBy
      [Store.ascendingBy ratioLe fun r => r.ratio, Store.ascendingBy le fun r => r.key] low)

/-- The table of listed keys. -/
def ratioTable (keyHeader otherHeader : String) (text : κ → String) (rows : List (RatioRow κ)) :
    String :=
  let table : Table :=
    { headers :=
        ["success_ratio", "session_count", "auth_count", keyHeader, otherHeader, "period"]
      rows := rows.map fun r =>
        [r.ratio.fixedText 4, Decimal.groupedText r.sessions, Decimal.groupedText r.auths,
          text r.key, Decimal.groupedText r.counterparts, Calendar.periodText r.period]
      alignments :=
        [(keyHeader, .left), ("success_ratio", .right), ("session_count", .right),
          ("auth_count", .right), (otherHeader, .right), ("period", .right)] }
  table.render

/-- The events that opened a session. -/
def openings (events : List Event) : List Event :=
  events.filter fun e => e.kind = .openSession

/-- The user ids of the sessions from an address, ascending.  The address is looked up by its text. -/
def uidsOfSource (source : String) (events : List Event) : List Uid :=
  Store.distinct Uid.le (((openings events).filter fun e => e.source = .text source).map (·.uid))

/-- The addresses of the sessions of a user id, ascending.  The user id is looked up as the whole
number at the start of its text. -/
def sourcesOfUid (uid : String) (events : List Event) : List Cell :=
  Store.distinct Store.textLe
    (((openings events).filter fun e => e.uid.isInteger (Store.leadingInteger uid)).map (·.source))

/-- The list of the user ids of an address's sessions. -/
def uidList (source : String) (uids : List Int) : String :=
  bulletList ("    - src_ipaddr \"" ++ source ++ "\", sessions granted on uids:")
    (uids.map Decimal.text)

/-- The list of the addresses of a user id's sessions. -/
def sourceList (uid : String) (sources : List String) : String :=
  bulletList ("    - uid \"" ++ uid ++ "\", sessions granted on IPs:") sources

/-- What reading the keys of rows as texts comes to: the first one that has no text makes it fail. -/
def namedKeys (column : String) (faults : List (Option Text.Utf8Fault)) : Except Fault Unit :=
  match faults.findSome? id with
  | some f => .error ((Fault.ofStore (.noText 3 f)).within (.computeRatios column))
  | none => .ok ()

/-- The addresses with the lowest success rates. -/
def sourcesBySuccess (config : Configuration) : Reporting σ :=
  onEvents fun s events => do
    let rows := ratioRows Store.textLe (·.source) Uid.le (·.uid) s.now config events
    namedKeys "src_ipaddr" (rows.map fun r => r.key.textFault?)
    let lists ← rows.mapM fun r => do
      let uids ← Fault.plain ((uidsOfSource r.key.toText events).mapM integerUid)
      .ok (uidList r.key.toText uids)
    if rows.isEmpty then .ok [noMatchingData]
    else .ok (ratioTable "src_ipaddr" "unique_uids" Cell.toText rows :: lists)

/-- The user ids with the lowest success rates. -/
def uidsBySuccess (config : Configuration) : Reporting σ :=
  onEvents fun s events => do
    let rows := ratioRows Uid.le (·.uid) Store.textLe (·.source) s.now config events
    namedKeys "uid" (rows.map fun r => r.key.textFault?)
    let lists ← rows.mapM fun r => do
      let sources := sourcesOfUid r.key.toText events
      Fault.plain (onlyTexts "src_ipaddr" sources)
      .ok (sourceList r.key.toText (sources.map Cell.toText))
    if rows.isEmpty then .ok [noMatchingData]
    else .ok (ratioTable "uid" "unique_ips" Uid.toText rows :: lists)

end Task
end AccessAudit
