import AccessAudit.Proofs.Task.Annotation
import AccessAudit.Proofs.Task.KeyFacts

/-!
# The report on open sessions is exact

The report lists pairs of a user id and a source.  Sources in a local network are left out before anything is
counted; a text that is no address lies in no network.  The pairs with more sessions opened than closed are
ranked by four criteria, which never leave two pairs undecided.
-/

namespace AccessAudit
namespace Task

open Store (Cell Event Uid Ranked Session)

variable {σ : Type}

deriving instance DecidableEq for OpenRow

/-! ### Pairs -/

/-- A source that is no address of one of the networks. -/
def IsForeign (networks : List Block) (source : String) : Prop :=
  ∀ a, Address.ofLogged? source = some a → ∀ network ∈ networks, network.contains a = false

theorem isForeign_iff
    {networks : List Block}
    {source : String} :
    IsForeign networks source ↔ Block.holdsLogged networks source = false := by
  unfold IsForeign Block.holdsLogged
  cases Address.ofLogged? source with
  | none => simp
  | some a => simp [Block.anyContains]

/-- What the log tells of a pair of a source and a user id. -/
def pairRow (log : List Event) (pair : Cell × Uid) : OpenRow :=
  let events := log.filter fun e => (e.source, e.uid) = pair
  { uid := pair.2
    source := pair.1
    live := (countKind .openSession events : Int) - countKind .closeSession events
    total := events.length }

/-- The pair of a row. -/
def OpenRow.pair (r : OpenRow) : Cell × Uid :=
  (r.source, r.uid)

/-- The first row is listed before the second one: it has more open sessions, or as many and more events, or
as many of both and the lesser user id, or also the same user id and the lesser source. -/
def OpenRow.Before (r r' : OpenRow) : Prop :=
  r'.live < r.live ∨ r.live = r'.live ∧
    (r'.total < r.total ∨ r.total = r'.total ∧
      (NumberBelow r.uid r'.uid ∨ r.uid = r'.uid ∧ r.source < r'.source))

theorem OpenRow.Before.not_before
    {r r' : OpenRow}
    (h : r.Before r') :
    ¬r'.Before r := by
  intro h'
  rcases h with hlive | ⟨hlive, htotal | ⟨htotal, hlast⟩⟩
  · rcases h' with hlive' | ⟨hlive', -⟩ <;> omega
  · rcases h' with hlive' | ⟨-, htotal' | ⟨htotal', -⟩⟩ <;> omega
  rcases h' with hlive' | ⟨-, htotal' | ⟨-, hlast'⟩⟩
  · omega
  · omega
  rcases hlast with ⟨n, m, hn, hm, hless⟩ | ⟨huid, hsource⟩
  · rcases hlast' with ⟨m', n', hm', hn', hless'⟩ | ⟨huid', -⟩
    · cases hn.symm.trans hn'
      cases hm.symm.trans hm'
      omega
    · cases hm.symm.trans (huid'.trans hn)
      omega
  · rcases hlast' with ⟨m, n, hm, hn, hless⟩ | ⟨-, hsource'⟩
    · cases hn.symm.trans (huid.trans hm)
      omega
    · exact lt_asymm hsource hsource'

/-- Of two rows only one is listed before the other, so the order determines a list of given rows. -/
instance : Std.Asymm OpenRow.Before :=
  ⟨fun _ _ h => h.not_before⟩

theorem occurs_of_live
    {log : List Event}
    {pair : Cell × Uid}
    (h : 0 < (pairRow log pair).live) :
    ∃ e ∈ log, (e.source, e.uid) = pair := by
  have hopenings : 0 < countKind .openSession (log.filter fun e => (e.source, e.uid) = pair) := by
    unfold pairRow at h
    dsimp only at h
    omega
  obtain ⟨e, he, -⟩ := List.countP_pos_iff.mp hopenings
  exact ⟨e, List.mem_of_mem_filter he, of_decide_eq_true (List.mem_filter.mp he).2⟩

section Foreign

variable (networks : List Block) {log : List Event}

/-- The events from foreign sources. -/
def foreignEvents (log : List Event) : List Event :=
  log.filter fun e => !Block.holdsLogged networks e.source.toText

/-- The events from foreign sources tell of a foreign source what all events tell of it. -/
theorem pairRow_foreignEvents
    (pair : Cell × Uid)
    (h : IsForeign networks pair.1.toText) :
    pairRow (foreignEvents networks log) pair = pairRow log pair := by
  unfold pairRow foreignEvents
  dsimp only
  rw [List.filter_filter]
  have hevents : (log.filter fun e =>
        decide ((e.source, e.uid) = pair) && !Block.holdsLogged networks e.source.toText) =
      log.filter fun e => (e.source, e.uid) = pair := by
    refine List.filter_congr fun e _ => ?_
    by_cases hpair : (e.source, e.uid) = pair
    · subst hpair
      simp [isForeign_iff.mp h]
    · simp [hpair]
  rw [hevents]

theorem live_pairRow_foreignEvents
    {pair : Cell × Uid} :
    0 < (pairRow (foreignEvents networks log) pair).live ↔
      IsForeign networks pair.1.toText ∧ 0 < (pairRow log pair).live := by
  constructor
  · intro h
    obtain ⟨e, he, hpair⟩ := occurs_of_live h
    have hforeign : IsForeign networks pair.1.toText := by
      rw [← hpair]
      exact isForeign_iff.mpr (by simpa using (List.mem_filter.mp he).2)
    exact ⟨hforeign, by rwa [← pairRow_foreignEvents networks _ hforeign]⟩
  · rintro ⟨hforeign, hlive⟩
    rwa [pairRow_foreignEvents networks _ hforeign]

end Foreign

/-! ### Listed pairs -/

section Pairs

variable {networks : List Block} {log : List Event}

/-- The rows of foreign pairs with open sessions before they are ranked. -/
def liveRows (networks : List Block) (log : List Event) : List OpenRow :=
  Store.listing pairLe (fun e => (e.source, e.uid)) (pairRow (foreignEvents networks log))
    (fun r => 0 < r.live) (foreignEvents networks log)

/-- The criteria by which rows of pairs are ranked. -/
def openCriteria : List (OpenRow → OpenRow → Ordering) :=
  [Store.descending fun r => r.live, Store.descending fun r => (r.total : Int),
    Store.ascendingBy Uid.le fun r => r.uid, Store.ascendingBy Store.textLe fun r => r.source]

theorem uid_of_mem_foreignEvents
    {e : Event}
    (he : e ∈ foreignEvents networks log) :
    e.uid ∈ log.map (·.uid) :=
  List.mem_map_of_mem (List.mem_of_mem_filter he)

section Discerned

variable (h : Store.Discerned (log.map (·.uid)))
include h

theorem openRows_eq
    (topN : Nat) :
    openRows networks topN log =
      Store.limit topN (Store.rankBy openCriteria (liveRows networks log)) := by
  have hkeys : ∀ e ∈ foreignEvents networks log, e.uid ∈ log.map (·.uid) :=
    fun e he => uid_of_mem_foreignEvents he
  have hmake : ∀ group ∈ Store.groups pairLe (fun e => (e.source, e.uid)) (foreignEvents networks log),
      ({ uid := group.1.2
         source := group.1.1
         live := (countKind .openSession group.2 : Int) - countKind .closeSession group.2
         total :=
           countKind .auth group.2 + countKind .openSession group.2 +
             countKind .closeSession group.2 } : OpenRow) =
        pairRow (foreignEvents networks log) group.1 := by
    intro group hgroup
    have hperm := Store.group_perm_filter (ranked_pairs h) hkeys hgroup
    unfold pairRow
    dsimp only
    rw [countKind_add, countKind_of_perm _ hperm, countKind_of_perm _ hperm, hperm.length_eq]
  unfold openRows liveRows
  dsimp only
  rw [List.filter_map]
  refine congrArg (fun rows => Store.limit topN (Store.rankBy openCriteria rows)) ?_
  exact Store.listing_eq_map hmake fun group hgroup =>
    congrArg (fun r : OpenRow => decide (0 < r.live)) (hmake group hgroup)

theorem mem_liveRows
    (r : OpenRow) :
    r ∈ liveRows networks log ↔
      r = pairRow log r.pair ∧ IsForeign networks r.source.toText ∧ 0 < r.live := by
  unfold liveRows
  rw [Store.mem_listing (ranked_pairs h) (fun e he => uid_of_mem_foreignEvents he) OpenRow.pair
    (fun _ => rfl) (fun pair hlive => occurs_of_live (of_decide_eq_true hlive)), decide_eq_true_iff]
  constructor
  · rintro ⟨hrow, hlive⟩
    have hforeign : IsForeign networks r.source.toText := by
      rw [hrow] at hlive
      exact ((live_pairRow_foreignEvents networks).mp hlive).1
    exact ⟨hrow.trans (pairRow_foreignEvents networks r.pair hforeign), hforeign, hlive⟩
  · rintro ⟨hrow, hforeign, hlive⟩
    exact ⟨hrow.trans (pairRow_foreignEvents networks r.pair hforeign).symm, hlive⟩

theorem nodup_pairs_liveRows :
    ((liveRows networks log).map OpenRow.pair).Nodup :=
  Store.nodup_keys_listing (ranked_pairs h) (fun _ he => uid_of_mem_foreignEvents he) OpenRow.pair
    (fun _ => rfl) _

theorem length_liveRows_le :
    (liveRows networks log).length ≤ log.length :=
  (Store.length_listing_le (ranked_pairs h) (fun _ he => uid_of_mem_foreignEvents he) OpenRow.pair
    (fun _ => rfl) _).trans (List.length_filter_le _ _)

theorem uid_of_mem_liveRows
    {r : OpenRow}
    (hr : r ∈ liveRows networks log) :
    r.uid ∈ log.map (·.uid) := by
  obtain ⟨e, he, hpair⟩ := Store.occurs_of_mem_listing (ranked_pairs h)
    (fun _ he => uid_of_mem_foreignEvents he) OpenRow.pair (fun _ => rfl) hr
  rw [← show e.uid = r.uid from congrArg Prod.snd hpair]
  exact uid_of_mem_foreignEvents he

/-- The four criteria decide as these ranks do, of which the last two tell any two pairs apart. -/
theorem pairwise_liveRows :
    (Store.rankBy openCriteria (liveRows networks log)).Pairwise fun r r' =>
      toLex (OrderDual.toDual r.live, toLex (OrderDual.toDual (r.total : Int),
          toLex (r.uid.rank, r.source))) <
        toLex (OrderDual.toDual r'.live, toLex (OrderDual.toDual (r'.total : Int),
          toLex (r'.uid.rank, r'.source))) := by
  have hranked := Store.ranked_uids h
  have hdecides : Store.Decides openCriteria
      (fun r => toLex (OrderDual.toDual r.live, toLex (OrderDual.toDual (r.total : Int),
        toLex (r.uid.rank, r.source))))
      (· ∈ liveRows networks log) := by
    refine Store.Decides.cons (Store.Decides.cons (Store.Decides.cons (Store.decides_singleton ?_) ?_)
      fun _ _ _ _ => Store.compares_descending _ _ _) fun _ _ _ _ => Store.compares_descending _ _ _
    · intro a b _ _
      exact Store.ranked_textLe.compares_ascendingBy OpenRow.source trivial trivial
    · intro a b ha hb
      exact hranked.compares_ascendingBy OpenRow.uid (uid_of_mem_liveRows h ha)
        (uid_of_mem_liveRows h hb)
  refine Store.pairwise_rankBy hdecides ?_
  have hnodup : ((liveRows networks log).map OpenRow.pair).Nodup := nodup_pairs_liveRows h
  refine List.Nodup.map_on (fun a ha b hb heq => ?_) (List.Nodup.of_map _ hnodup)
  obtain ⟨-, hrest⟩ := Prod.ext_iff.mp (toLex_inj.mp heq)
  obtain ⟨-, hlast⟩ := Prod.ext_iff.mp (toLex_inj.mp hrest)
  obtain ⟨huid, hsource⟩ := Prod.ext_iff.mp (toLex_inj.mp hlast)
  refine List.inj_on_of_nodup_map hnodup ha hb (Prod.ext hsource ?_)
  exact hranked.inj _ _ (uid_of_mem_liveRows h ha) (uid_of_mem_liveRows h hb) huid

end Discerned

/-- With user ids that are whole numbers the ranked rows are those of all foreign pairs with open sessions,
from the first to the last. -/
theorem openRows_exact
    (networks : List Block)
    (huids : ∀ e ∈ log, ∃ n, e.uid = .integer n)
    (hlog : log.length < 2 ^ 63) :
    ∃ all : List OpenRow,
      (∀ topN < 2 ^ 64, openRows networks topN log = all.take topN) ∧
      (∀ r, r ∈ all ↔ r = pairRow log r.pair ∧ IsForeign networks r.source.toText ∧ 0 < r.live) ∧
      all.Pairwise OpenRow.Before := by
  have h := discerned_of_log huids
  have hperm := Store.perm_rankBy openCriteria (liveRows networks log)
  refine ⟨Store.rankBy openCriteria (liveRows networks log), fun topN htop => ?_,
    fun r => hperm.mem_iff.trans (mem_liveRows h r), ?_⟩
  · rw [openRows_eq h, Store.limit_eq_take htop]
    rw [hperm.length_eq]
    exact (length_liveRows_le h).trans_lt hlog
  · refine (pairwise_liveRows h).imp_of_mem fun {r r'} hr hr' hless => ?_
    have huid {r : OpenRow} (hr : r ∈ Store.rankBy openCriteria (liveRows networks log)) :
        r.uid ∈ log.map (·.uid) :=
      uid_of_mem_liveRows h (hperm.mem_iff.mp hr)
    have hinteger {r : OpenRow} (hr : r ∈ Store.rankBy openCriteria (liveRows networks log)) :
        ∃ n, r.uid = .integer n := by
      obtain ⟨e, he, heq⟩ := List.mem_map.mp (huid hr)
      exact heq ▸ huids e he
    rcases Prod.Lex.toLex_lt_toLex.mp hless with hlive | ⟨hlive, hrest⟩
    · exact .inl (OrderDual.toDual_lt_toDual.mp hlive)
    refine .inr ⟨OrderDual.toDual_inj.mp hlive, ?_⟩
    rcases Prod.Lex.toLex_lt_toLex.mp hrest with htotal | ⟨htotal, hlast⟩
    · exact .inl (Int.ofNat_lt.mp (OrderDual.toDual_lt_toDual.mp htotal))
    refine .inr ⟨Int.natCast_inj.mp (OrderDual.toDual_inj.mp htotal), ?_⟩
    rcases Prod.Lex.toLex_lt_toLex.mp hlast with hrank | ⟨hrank, hsource⟩
    · exact .inl (numberBelow_of_rank_lt (hinteger hr) (hinteger hr') hrank)
    · exact .inr ⟨(Store.ranked_uids h).inj _ _ (huid hr) (huid hr') hrank, hsource⟩

end Pairs

/-! ### The report -/

/-- The table of listed pairs, each with the record that was found of its source. -/
def openTable (rows : List OpenRow) (records : List Record) : String :=
  let table : Table :=
    { headers :=
        ["uid", "src_ipaddr", "live_sessions", "total_events", "org cidr", "org country", "org descrip"]
      rows :=
        List.zipWith
          (fun r record =>
            [r.uid.toText, r.source.toText, Decimal.groupedText r.live, Decimal.groupedText r.total,
              record.cidr, record.country, record.description])
          rows records
      alignments :=
        [("uid", .left), ("src_ipaddr", .left), ("live_sessions", .right), ("total_events", .right),
          ("org cidr", .right), ("org country", .center), ("org descrip", .left)] }
  if rows.isEmpty then "No matching data." else table.render

theorem openTable_eq_noMatchingData_iff
    (rows : List OpenRow)
    (records : List Record) :
    openTable rows records = "No matching data." ↔ rows = [] := by
  unfold openTable
  by_cases hempty : rows.isEmpty = true
  · simp [List.isEmpty_iff.mp hempty]
  · rw [if_neg hempty]
    exact iff_of_false (Sketch.render_ne_noMatchingData _) fun hnil => hempty (List.isEmpty_iff.mpr hnil)

theorem openForeignSessions_eq
    {s : Session}
    {log : List Event}
    (hlog : s.tables.events = some log)
    (config : Configuration)
    (c : Context σ)
    (hkeys : ∀ r ∈ openRows s.localNetworks config.topN log, ∃ n, r.uid = .integer n)
    (hasked : onlyAddresses config.topN (log.map (·.source)) = .ok ()) :
    let listed := openRows s.localNetworks config.topN log
    let annotated := c.cache.annotateAll (listed.map (·.source.toText))
    openForeignSessions config (s, c) =
      (.ok [openTable listed annotated.1], (s.fixView, { c with cache := annotated.2 })) := by
  intro listed annotated
  have hnetworks : s.fixView.localNetworks = s.localNetworks := rfl
  obtain ⟨ns, hns⟩ := exists_mapM_integerUid hkeys
  have huids : openUids s.localNetworks config.topN log = .ok ns := by
    rw [openUids, hasked]
    exact hns
  have hcells : ((ns.zip listed).map fun x =>
        (x.2.source.toText,
          [Decimal.text x.1, x.2.source.toText, Decimal.groupedText x.2.live,
            Decimal.groupedText x.2.total])) =
      listed.map fun r =>
        (r.source.toText,
          [r.uid.toText, r.source.toText, Decimal.groupedText r.live, Decimal.groupedText r.total]) :=
    map_zip_integers (mapM_integerUid_iff.mp hns) fun uid r =>
      (r.source.toText, [uid, r.source.toText, Decimal.groupedText r.live, Decimal.groupedText r.total])
  simp only [openForeignSessions, Session.read, Store.Tables.getEvents, hlog, Option.elim_some,
    hnetworks, huids]
  by_cases hempty : listed.isEmpty = true
  · rw [if_pos hempty, openTable, if_pos hempty]
    simp only [annotated, List.isEmpty_iff.mp hempty]
    rfl
  · rw [if_neg hempty, hcells, Sketch.annotatedTable_map, openTable, if_neg hempty]
    rfl

/-- A source that is stored as bytes makes the report fail. -/
theorem openForeignSessions_of_bytes
    {s : Session}
    {log : List Event}
    (hlog : s.tables.events = some log)
    {config : Configuration}
    (hpos : 0 < config.topN)
    (htop : config.topN < 2 ^ 64)
    (c : Context σ)
    (hbytes : ∃ e ∈ log, ∃ b, e.source = .bytes b) :
    (openForeignSessions config (s, c)).1 = .error (Fault.ofStore (.argumentType .blob)) := by
  have hasked : onlyAddresses config.topN (log.map (·.source)) = .error (.argumentType .blob) := by
    obtain ⟨e, he, b, hsource⟩ := hbytes
    exact onlyAddresses_of_bytes hpos htop ⟨e.source, List.mem_map_of_mem he, b, hsource⟩
  have huids : openUids s.fixView.localNetworks config.topN log = .error (.argumentType .blob) := by
    rw [openUids, hasked]
    rfl
  simp only [openForeignSessions, Session.read, Store.Tables.getEvents, hlog, Option.elim_some, huids]

/-- **The report on open sessions is exact.**  Let the user ids of the log be whole numbers.  If its sources are
texts, the report lists the first pairs, up to the limit, of all pairs of a foreign source and a user id with more
sessions opened than closed: the most open sessions first, then the most events, then by user id and by source.
A row shows the difference and the number of all events of its pair.  Nothing is listed if and only if there is no
such pair or the limit is 0.  If a source is stored as bytes, which are no address, the report fails, but for a
limit of 0. -/
theorem openForeignSessions_exact
    (config : Configuration)
    (htop : config.topN < 2 ^ 64)
    (s : Session)
    (c : Context σ)
    (log : List Event)
    (hlog : s.tables.events = some log)
    (huids : ∀ e ∈ log, ∃ n, e.uid = .integer n)
    (hlength : log.length < 2 ^ 63) :
    ∃ all : List OpenRow,
      (∀ r, r ∈ all ↔ r = pairRow log r.pair ∧ IsForeign s.localNetworks r.source.toText ∧ 0 < r.live) ∧
      all.Pairwise OpenRow.Before ∧
      ((∀ e ∈ log, ∃ t, e.source = .text t) ∨ config.topN = 0 →
        (let listed := all.take config.topN
         let annotated := c.cache.annotateAll (listed.map (·.source.toText))
         openForeignSessions config (s, c) =
          (.ok [openTable listed annotated.1], (s.fixView, { c with cache := annotated.2 }))) ∧
        ((openForeignSessions config (s, c)).1 = .ok ["No matching data."] ↔
          (∀ source uid, IsForeign s.localNetworks source.toText → (pairRow log (source, uid)).live ≤ 0) ∨
            config.topN = 0)) ∧
      ((∃ e ∈ log, ∃ b, e.source = .bytes b) → 0 < config.topN →
        (openForeignSessions config (s, c)).1 = .error (Fault.ofStore (.argumentType .blob))) := by
  obtain ⟨all, hrows, hmem, hbefore⟩ := openRows_exact s.localNetworks huids hlength
  have hkeys : ∀ r ∈ openRows s.localNetworks config.topN log, ∃ n, r.uid = .integer n := by
    intro r hr
    rw [hrows _ htop] at hr
    obtain ⟨hrow, -, hlive⟩ := (hmem r).mp (List.mem_of_mem_take hr)
    rw [hrow] at hlive
    obtain ⟨e, he, hpair⟩ := occurs_of_live hlive
    rw [← show e.uid = r.uid from congrArg Prod.snd hpair]
    exact huids e he
  refine ⟨all, hmem, hbefore, fun hreads => ?_,
    fun hbytes hpos => openForeignSessions_of_bytes hlog hpos htop c hbytes⟩
  have hasked : onlyAddresses config.topN (log.map (·.source)) = .ok () := by
    rcases hreads with hsources | hzero
    · exact onlyAddresses_of_texts config.topN (List.forall_mem_map.mpr hsources)
    · rw [hzero, onlyAddresses_zero]
  have hreport := openForeignSessions_eq hlog config c hkeys hasked
  rw [hrows _ htop] at hreport
  refine ⟨hreport, ?_⟩
  have hnone : all = [] ↔
      ∀ source uid, IsForeign s.localNetworks source.toText → (pairRow log (source, uid)).live ≤ 0 := by
    rw [List.eq_nil_iff_forall_not_mem]
    constructor
    · intro h source uid hforeign
      by_contra hlive
      exact h _ ((hmem (pairRow log (source, uid))).mpr ⟨rfl, hforeign, not_le.mp hlive⟩)
    · intro h r hr
      obtain ⟨hrow, hforeign, hlive⟩ := (hmem r).mp hr
      rw [hrow] at hlive
      exact absurd hlive (not_lt.mpr (h r.source r.uid hforeign))
  rw [hreport]
  dsimp only
  rw [Except.ok.injEq, List.cons.injEq, openTable_eq_noMatchingData_iff, List.take_eq_nil_iff, hnone,
    or_comm, and_iff_left rfl]

/-- Events of a user id: at home, from an address elsewhere with one session left open, from a text that is no
address, and from an address elsewhere with all sessions closed. -/
def openLog : List Event :=
  [⟨"192.168.1.5", .openSession, .integer 1001, "2024-03-18 08:00:00"⟩,
    ⟨"203.0.113.5", .auth, .integer 1001, "2024-03-18 09:00:00"⟩,
    ⟨"203.0.113.5", .openSession, .integer 1001, "2024-03-18 09:00:01"⟩,
    ⟨"203.0.113.5", .openSession, .integer 1001, "2024-03-18 09:10:00"⟩,
    ⟨"203.0.113.5", .closeSession, .integer 1001, "2024-03-18 09:20:00"⟩,
    ⟨"console", .openSession, .integer 1001, "2024-03-18 10:00:00"⟩,
    ⟨"203.0.113.9", .openSession, .integer 1001, "2024-03-18 11:00:00"⟩,
    ⟨"203.0.113.9", .closeSession, .integer 1001, "2024-03-18 11:30:00"⟩]

/-- The pair with more events is listed before the one whose source is no address; with a limit of 0 nothing
is listed. -/
theorem openLog_listed :
    (∀ e ∈ openLog, ∃ n, e.uid = .integer n) ∧
    openLog.length < 2 ^ 63 ∧
    let s : Session :=
      { committed := ⟨some openLog, some []⟩, localNetworks := Block.defaultLocal, now := 1710892800 }
    let rows : List OpenRow := [⟨.integer 1001, "203.0.113.5", 1, 4⟩, ⟨.integer 1001, "console", 1, 1⟩]
    (∃ records, (openForeignSessions {} (s, Context.idle)).1 = .ok [openTable rows records]) ∧
    (openForeignSessions { topN := 0 } (s, Context.idle)).1 = .ok ["No matching data."] := by
  have huids : ∀ e ∈ openLog, ∃ n, e.uid = .integer n := by simp [openLog]
  have hsources : ∀ e ∈ openLog, ∃ t, e.source = .text t := by simp [openLog]
  have hlength : openLog.length < 2 ^ 63 := by decide
  refine ⟨huids, hlength, ?_⟩
  intro s rows
  obtain ⟨all, hmem, hbefore, hexact, -⟩ :=
    openForeignSessions_exact {} (by decide) s Context.idle openLog rfl huids hlength
  obtain ⟨hreport, -⟩ := hexact (.inl hsources)
  obtain ⟨_, -, -, hempty, -⟩ :=
    openForeignSessions_exact { topN := 0 } (by decide) s Context.idle openLog rfl huids hlength
  obtain ⟨-, hnothing⟩ := hempty (.inr rfl)
  have hpairs : ∀ pair ∈ openLog.map fun e => (e.source, e.uid),
      Block.holdsLogged s.localNetworks pair.1.toText = false ∧ 0 < (pairRow openLog pair).live ↔
        pair = (.text "203.0.113.5", .integer 1001) ∨ pair = (.text "console", .integer 1001) := by
    decide +kernel
  have hfirst : pairRow openLog ("203.0.113.5", .integer 1001) = ⟨.integer 1001, "203.0.113.5", 1, 4⟩ := by
    decide +kernel
  have hsecond : pairRow openLog ("console", .integer 1001) = ⟨.integer 1001, "console", 1, 1⟩ := by
    decide +kernel
  have hrows : ∀ r, r ∈ all ↔
      r ∈ [(⟨.integer 1001, "203.0.113.5", 1, 4⟩ : OpenRow), ⟨.integer 1001, "console", 1, 1⟩] := by
    intro r
    rw [hmem, isForeign_iff, List.mem_pair]
    constructor
    · rintro ⟨hrow, hforeign, hlive⟩
      rw [hrow] at hlive
      obtain ⟨e, he, hpair⟩ := occurs_of_live hlive
      have hlisted := (hpairs _ (List.mem_map.mpr ⟨e, he, hpair⟩)).mp ⟨hforeign, hlive⟩
      exact hlisted.imp (fun h => by rw [hrow, h, hfirst]) (fun h => by rw [hrow, h, hsecond])
    · rintro (rfl | rfl)
      · exact ⟨hfirst.symm, by decide +kernel, by decide⟩
      · exact ⟨hsecond.symm, by decide +kernel, by decide⟩
  have hall : all = [⟨.integer 1001, "203.0.113.5", 1, 4⟩, ⟨.integer 1001, "console", 1, 1⟩] := by
    have hordered : List.Pairwise OpenRow.Before
        [⟨.integer 1001, "203.0.113.5", 1, 4⟩, ⟨.integer 1001, "console", 1, 1⟩] := by
      simp [OpenRow.Before]
    exact hbefore.eq_of_mem_iff hordered hrows
  subst hall
  exact ⟨⟨_, congrArg Prod.fst hreport⟩, hnothing.mpr (.inr rfl)⟩

end Task
end AccessAudit
