import AccessAudit.Proofs.Double.Digits
import AccessAudit.Proofs.Store.Ties
import AccessAudit.Proofs.Task.Annotation
import AccessAudit.Proofs.Task.KeyFacts
import AccessAudit.Proofs.Task.SuccessRanking

/-!
# The lists of sessions under the rankings by success

Under the table each listed key has a list of its own, for which the log is asked once more.  A source is asked
for as it is, so its list tells of the events from which its row was made, also where user ids are no whole
numbers.  A user id is asked for as the whole number at the start of its text.  For a whole number that is the
number itself; for any other user id it is not, and the list under it tells of another account.
-/

namespace AccessAudit

namespace Store

open Decimal

/-! ### Whole numbers at the start of a text -/

/-- The text of a whole number of 64 bits starts with that number. -/
theorem leadingInteger_text
    {n : Int}
    (h : fitsInt64 n = true) :
    leadingInteger (Decimal.text n) = n := by
  simp only [fitsInt64, Bool.and_eq_true, decide_eq_true_iff] at h
  unfold leadingInteger Decimal.text signed
  rw [String.toList_ofList]
  by_cases hneg : n < 0
  · rw [if_pos hneg, List.dropWhile_cons_of_neg (by decide),
      show takeSign ('-' :: digits n.natAbs) = (true, digits n.natAbs) from rfl]
    dsimp only
    rw [takeDigits_digits, digitsValue_digits, if_pos rfl]
    omega
  · rw [if_neg hneg, takeSign_digits]
    dsimp only
    rw [takeDigits_digits, digitsValue_digits, if_neg Bool.false_ne_true]
    omega

/-- Cutting a list at a limit adds nothing to it. -/
theorem mem_of_mem_limit
    {α : Type}
    {topN : Nat}
    {rows : List α}
    {r : α}
    (h : r ∈ limit topN rows) :
    r ∈ rows := by
  unfold limit at h
  split at h
  · exact List.mem_of_mem_take h
  · exact h

end Store

namespace Task

open Store (Cell Event OrderedBy Session Uid)

variable {σ κ δ ρ : Type} [LinearOrder ρ]

/-! ### The events of a row -/

/-- The row is made from these events, some of which opened a session. -/
structure MadeFrom (now : Int) (events : List Event) (r : RatioRow κ) : Prop where
  sessions : r.sessions = countKind .openSession events
  auths : r.auths = countKind .auth events
  period : r.period = period now events
  opened : openings events ≠ []

theorem openings_ne_nil_of_countKind
    {events : List Event}
    (h : 0 < countKind .openSession events) :
    openings events ≠ [] := by
  obtain ⟨e, he, hkind⟩ := List.countP_pos_iff.mp h
  exact List.ne_nil_of_mem (List.mem_filter.mpr ⟨he, hkind⟩)

theorem openings_filter
    (p : Event → Bool)
    (events : List Event) :
    openings (events.filter p) = (openings events).filter p := by
  unfold openings
  rw [List.filter_filter, List.filter_filter]
  exact List.filter_congr fun e _ => Bool.and_comm _ _

/-- The key under which a group is listed is that of one of its events. -/
theorem exists_listedKey
    {key : Event → κ}
    {group : κ × List Event}
    (h : group.2 ≠ []) :
    ∃ e ∈ group.2, key e = listedKey key group := by
  obtain ⟨first, rest, hcons⟩ := List.exists_cons_of_ne_nil h
  cases hearliest : earliestEvent group.2 with
  | none =>
      rw [hcons] at hearliest
      cases hearliest
  | some e =>
      refine ⟨e, mem_of_earliestEvent hearliest, ?_⟩
      rw [listedKey, hearliest]
      rfl

section Rows

variable {le : κ → κ → Bool} {rank : κ → ρ} {keys : κ → Prop} {key : Event → κ}
  {otherLe : δ → δ → Bool} {other : Event → δ} {log : List Event}

/-- A row is made from a group that has an event with its key. -/
theorem group_of_mem_ratioRows
    {now : Int}
    {config : Configuration}
    {r : RatioRow κ}
    (hr : r ∈ ratioRows le key otherLe other now config log) :
    ∃ group ∈ Store.groups le key log, MadeFrom now group.2 r ∧ ∃ e ∈ group.2, key e = r.key := by
  have hlow := (Store.perm_rankBy _ _).mem_iff.mp (Store.mem_of_mem_limit hr)
  obtain ⟨hrow, hpasses⟩ := List.mem_filter.mp hlow
  obtain ⟨group, hgroup, rfl⟩ := List.mem_map.mp hrow
  simp only [Bool.and_eq_true, decide_eq_true_iff] at hpasses
  exact ⟨group, hgroup, ⟨rfl, rfl, rfl, openings_ne_nil_of_countKind hpasses.1.2⟩,
    exists_listedKey (Store.ne_nil_of_mem_groups hgroup)⟩

theorem MadeFrom.of_perm
    {now : Int}
    {events events' : List Event}
    {r : RatioRow κ}
    (h : MadeFrom now events r)
    (hperm : events.Perm events') :
    MadeFrom now events' r where
  sessions := h.sessions.trans (countKind_of_perm _ hperm)
  auths := h.auths.trans (countKind_of_perm _ hperm)
  period := h.period.trans (period_of_perm now hperm)
  opened hnil := by
    have hopenings : (openings events).Perm (openings events') := hperm.filter _
    rw [hnil] at hopenings
    exact h.opened hopenings.eq_nil

theorem exists_key_of_mem_ratioRows
    (h : OrderedBy le rank keys)
    (hkeys : ∀ e ∈ log, keys (key e))
    {now : Int}
    {config : Configuration}
    {r : RatioRow κ}
    (hr : r ∈ ratioRows le key otherLe other now config log) :
    ∃ e ∈ log, key e = r.key := by
  obtain ⟨group, hgroup, -, e, he, hkey⟩ := group_of_mem_ratioRows hr
  have hmem := (Store.group_perm_filter_rank h hkeys hgroup).mem_iff.mp he
  exact ⟨e, List.mem_of_mem_filter hmem, hkey⟩

/-- A row is made from all events whose keys have the rank of its key. -/
theorem madeFrom_of_mem_ratioRows
    (h : OrderedBy le rank keys)
    (hkeys : ∀ e ∈ log, keys (key e))
    {now : Int}
    {config : Configuration}
    {r : RatioRow κ}
    (hr : r ∈ ratioRows le key otherLe other now config log)
    {belongs : Event → Bool}
    (hbelongs : ∀ e ∈ log, belongs e = true ↔ rank (key e) = rank r.key) :
    MadeFrom now (log.filter belongs) r := by
  obtain ⟨group, hgroup, hmade, e, he, hkey⟩ := group_of_mem_ratioRows hr
  have hperm := Store.group_perm_filter_rank h hkeys hgroup
  have hrank := (List.mem_filter.mp (hperm.mem_iff.mp he)).2
  rw [hkey, decide_eq_true_iff] at hrank
  have hevents : (log.filter fun e => rank (key e) = rank group.1) = log.filter belongs := by
    refine List.filter_congr fun e he => ?_
    rw [← hrank, Bool.eq_iff_iff, decide_eq_true_iff, hbelongs e he]
  rw [hevents] at hperm
  exact hmade.of_perm hperm

end Rows

/-! ### The user ids of a source -/

/-- These are the user ids of the events: each is that of one of them, and each of them has the value of one. -/
def AreUids (uids : List Int) (events : List Event) : Prop :=
  (∀ n ∈ uids, ∃ e ∈ events, e.uid = .integer n) ∧
  ∀ e ∈ events, ∃ n ∈ uids, e.uid.isInteger n = true

theorem AreUids.mem_iff
    {uids : List Int}
    {events : List Event}
    (h : AreUids uids events)
    (n : Int) :
    n ∈ uids ↔ Uid.integer n ∈ events.map (·.uid) := by
  rw [List.mem_map]
  refine ⟨h.1 n, ?_⟩
  rintro ⟨e, he, hn⟩
  obtain ⟨m, hm, hvalue⟩ := h.2 e he
  rw [hn, Store.Uid.isInteger_integer_iff] at hvalue
  exact hvalue ▸ hm

/-- The list names the source of the row.  It holds, in ascending order, the user ids of the sessions from the
text of that source.  If the source is a text, these are the sessions that were opened by the events from which
the row is made. -/
def ListsUids (now : Int) (log : List Event) (r : RatioRow Cell) (list : String) : Prop :=
  let events := log.filter fun e => e.source = r.key
  MadeFrom now events r ∧
  ∃ uids : List Int,
    list = itemized ("    - src_ipaddr \"" ++ r.key.toText ++ "\", sessions granted on uids:")
      (uids.map Decimal.text) ∧
    uids.Pairwise (· < ·) ∧
    AreUids uids ((openings log).filter fun e => e.source = .text r.key.toText) ∧
    ((∃ t, r.key = .text t) → uids ≠ [] ∧ AreUids uids (openings events))

/-- What is read of a source are its user ids, in ascending order. -/
theorem areUids_uidsOfSource
    {log : List Event}
    (hkept : ∀ e ∈ log, e.uid.Kept)
    {source : String}
    {ns : List Int}
    (hns : (uidsOfSource source log).mapM integerUid = .ok ns) :
    ns.Pairwise (· < ·) ∧ AreUids ns ((openings log).filter fun e => e.source = .text source) := by
  have hlisted : uidsOfSource source log = ns.map .integer := by
    simpa using mapM_integerUid_iff (f := id) |>.mp hns
  have hvalues : ∀ uid ∈ ((openings log).filter fun e => e.source = .text source).map (·.uid),
      uid.Kept := by
    intro uid huid
    obtain ⟨e, he, rfl⟩ := List.mem_map.mp huid
    exact hkept e (List.mem_of_mem_filter (List.mem_of_mem_filter he))
  obtain ⟨hmem, hcovers, hascends⟩ := Store.distinct_of_ranks Store.orderedBy_kept hvalues
  rw [← uidsOfSource, hlisted] at hmem hcovers hascends
  refine ⟨(List.pairwise_map.mp hascends).imp Store.Uid.rank_integer_lt_iff.mp, fun n hn => ?_,
    fun e he => ?_⟩
  · exact List.mem_map.mp (hmem _ (List.mem_map_of_mem hn))
  · obtain ⟨w, hw, hrank⟩ := hcovers e.uid (List.mem_map_of_mem he)
    obtain ⟨n, hn, rfl⟩ := List.mem_map.mp hw
    exact ⟨n, hn, Store.Uid.isInteger_iff.mpr hrank.symm⟩

theorem listsUids_of_mem_ratioRows
    {now : Int}
    {config : Configuration}
    {log : List Event}
    (hkept : ∀ e ∈ log, e.uid.Kept)
    {r : RatioRow Cell}
    (hr : r ∈ ratioRows Store.textLe (·.source) Uid.le (·.uid) now config log)
    {ns : List Int}
    (hns : (uidsOfSource r.key.toText log).mapM integerUid = .ok ns) :
    ListsUids now log r (uidList r.key.toText ns) := by
  let events := log.filter fun e => e.source = r.key
  have hmade : MadeFrom now events r :=
    madeFrom_of_mem_ratioRows Store.ranked_cells.orderedBy (fun _ _ => trivial) hr
      fun _ _ => decide_eq_true_iff
  obtain ⟨hascends, huids⟩ := areUids_uidsOfSource hkept hns
  refine ⟨hmade, ns, bulletList_eq _ _, hascends, huids, ?_⟩
  rintro ⟨t, ht⟩
  have hsame : ((openings log).filter fun e => e.source = .text r.key.toText) = openings events := by
    simp only [events, openings_filter, ht, Cell.toText]
  rw [hsame] at huids
  refine ⟨?_, huids⟩
  obtain ⟨e, he⟩ := List.exists_mem_of_ne_nil _ hmade.opened
  obtain ⟨n, hn, -⟩ := huids.2 e he
  exact List.ne_nil_of_mem hn

/-! ### The sources of a user id -/

/-- These texts are the sources of the events. -/
def AreSources (sources : List String) (events : List Event) : Prop :=
  (∀ source ∈ sources, ∃ e ∈ events, e.source = .text source) ∧
  ∀ e ∈ events, ∃ source ∈ sources, e.source = .text source

theorem AreSources.mem_iff
    {sources : List String}
    {events : List Event}
    (h : AreSources sources events)
    (source : String) :
    source ∈ sources ↔ Cell.text source ∈ events.map (·.source) := by
  rw [List.mem_map]
  refine ⟨h.1 source, ?_⟩
  rintro ⟨e, he, hsource⟩
  obtain ⟨t, ht, heq⟩ := h.2 e he
  exact Cell.text.inj (hsource.symm.trans heq) ▸ ht

/-- The list names the user id of the row.  It holds, in ascending order, the sources of the sessions of the
whole number at the start of that user id's text.  If the user id is a whole number, these are the sessions that
were opened by the events from which the row is made. -/
def ListsSources (now : Int) (log : List Event) (r : RatioRow Uid) (list : String) : Prop :=
  let events := log.filter fun e => e.uid.le r.key && r.key.le e.uid
  MadeFrom now events r ∧
  ∃ sources : List String,
    list = itemized ("    - uid \"" ++ r.key.toText ++ "\", sessions granted on IPs:") sources ∧
    sources.Pairwise (· < ·) ∧
    AreSources sources
      ((openings log).filter fun e => e.uid.isInteger (Store.leadingInteger r.key.toText)) ∧
    ((∃ n, r.key = .integer n) → sources ≠ [] ∧ AreSources sources (openings events))

/-- Sources that are read as texts are shown in ascending order, and none is left out. -/
theorem areSources_sourcesOfUid
    {uid : String}
    {log : List Event}
    (h : onlyTexts "src_ipaddr" (sourcesOfUid uid log) = .ok ()) :
    ((sourcesOfUid uid log).map Cell.toText).Pairwise (· < ·) ∧
    AreSources ((sourcesOfUid uid log).map Cell.toText)
      ((openings log).filter fun e => e.uid.isInteger (Store.leadingInteger uid)) := by
  let events := (openings log).filter fun e => e.uid.isInteger (Store.leadingInteger uid)
  have hmem (source : Cell) : source ∈ sourcesOfUid uid log ↔ ∃ e ∈ events, e.source = source := by
    rw [sourcesOfUid, Store.mem_distinct Store.ranked_cells fun _ _ => trivial, List.mem_map]
  have htexts : ∀ source ∈ events.map (·.source), ∃ t, source = .text t := by
    intro source hsource
    exact ⟨_, text_of_onlyTexts h ((hmem source).mpr (List.mem_map.mp hsource))⟩
  refine ⟨pairwise_distinct_texts htexts, ?_, fun e he => ?_⟩
  · intro source hsource
    obtain ⟨cell, hcell, rfl⟩ := List.mem_map.mp hsource
    obtain ⟨e, he, rfl⟩ := (hmem cell).mp hcell
    exact ⟨e, he, text_of_onlyTexts h hcell⟩
  · have hlisted := (hmem e.source).mpr ⟨e, he, rfl⟩
    exact ⟨_, List.mem_map_of_mem hlisted, text_of_onlyTexts h hlisted⟩

theorem listsSources_of_mem_ratioRows
    {now : Int}
    {config : Configuration}
    {log : List Event}
    (hkept : ∀ e ∈ log, e.uid.Kept)
    {r : RatioRow Uid}
    (hr : r ∈ ratioRows Uid.le (·.uid) Store.textLe (·.source) now config log)
    (htexts : onlyTexts "src_ipaddr" (sourcesOfUid r.key.toText log) = .ok ()) :
    ListsSources now log r
      (sourceList r.key.toText ((sourcesOfUid r.key.toText log).map Cell.toText)) := by
  obtain ⟨first, hfirst, hkey⟩ := exists_key_of_mem_ratioRows Store.orderedBy_kept hkept hr
  have hkeptKey : r.key.Kept := hkey ▸ hkept first hfirst
  let events := log.filter fun e => e.uid.le r.key && r.key.le e.uid
  have hmade : MadeFrom now events r := by
    refine madeFrom_of_mem_ratioRows Store.orderedBy_kept hkept hr fun e he => ?_
    rw [Bool.and_eq_true, Store.orderedBy_kept _ _ (hkept e he) hkeptKey,
      Store.orderedBy_kept _ _ hkeptKey (hkept e he), le_antisymm_iff]
  obtain ⟨hascends, hsources⟩ := areSources_sourcesOfUid htexts
  refine ⟨hmade, _, bulletList_eq _ _, hascends, hsources, ?_⟩
  rintro ⟨n, hn⟩
  rw [hn] at hkeptKey
  have hsame : ((openings log).filter fun e => e.uid.isInteger (Store.leadingInteger r.key.toText)) =
      openings events := by
    simp only [events, openings_filter, hn, Uid.toText, Store.leadingInteger_text hkeptKey]
    rfl
  rw [hsame] at hsources
  refine ⟨?_, hsources⟩
  obtain ⟨e, he⟩ := List.exists_mem_of_ne_nil _ hmade.opened
  obtain ⟨source, hsource, -⟩ := hsources.2 e he
  exact List.ne_nil_of_mem hsource

/-! ### The reports -/

/-- The table of keys, each with its ratio and the counts of its events. -/
def rateTable (keyHeader otherHeader : String) (text : κ → String) (rows : List (RatioRow κ)) : Table :=
  { headers := ["success_ratio", "session_count", "auth_count", keyHeader, otherHeader, "period"]
    rows := rows.map fun r =>
      [r.ratio.fixedText 4, Decimal.groupedText r.sessions, Decimal.groupedText r.auths,
        text r.key, Decimal.groupedText r.counterparts, Calendar.periodText r.period]
    alignments :=
      [(keyHeader, .left), ("success_ratio", .right), ("session_count", .right), ("auth_count", .right),
        (otherHeader, .right), ("period", .right)] }

/-- A report with rows shows its table and the lists that were made of them. -/
theorem lists_of_report
    {rows : List (RatioRow κ)}
    (hne : rows ≠ [])
    {named : Except Fault Unit}
    {list : RatioRow κ → Except Fault String}
    {table : String}
    {blocks : List String}
    (h : (do
      named
      let lists ← rows.mapM list
      if rows.isEmpty then .ok [noMatchingData] else .ok (table :: lists)) = .ok blocks) :
    ∃ lists, blocks = table :: lists ∧ List.Forall₂ (fun r text => r ∈ rows ∧ list r = .ok text) rows lists := by
  obtain ⟨_, -, h⟩ := exists_of_bind_eq_ok h
  obtain ⟨lists, hlists, hblocks⟩ := exists_of_bind_eq_ok h
  rw [if_neg (by simpa using hne)] at hblocks
  cases hblocks
  exact ⟨lists, rfl, (List.forall₂_and_left _ _).mpr ⟨fun r hr => hr, (mapM_eq_ok_iff _ _ _).mp hlists⟩⟩

/-- A report whose keys have texts, and whose lists can be made, succeeds. -/
theorem report_of_lists
    {rows : List (RatioRow κ)}
    {column : String}
    (faultOf : κ → Option Text.Utf8Fault)
    (hkeys : ∀ r ∈ rows, faultOf r.key = none)
    {list : RatioRow κ → Except Fault String}
    (hlists : ∀ r ∈ rows, ∃ text, list r = .ok text)
    (table : String) :
    ∃ blocks, (do
      namedKeys column (rows.map fun r : RatioRow κ => faultOf r.key)
      let lists ← rows.mapM list
      if rows.isEmpty then .ok [noMatchingData] else .ok (table :: lists)) = .ok blocks := by
  have hnamed : namedKeys column (rows.map fun r : RatioRow κ => faultOf r.key) = .ok () := by
    have hnone : (rows.map fun r : RatioRow κ => faultOf r.key).findSome? id = none := by
      simpa using hkeys
    rw [namedKeys, hnone]
  obtain ⟨lists, hmade⟩ := exists_mapM_eq_ok hlists
  rw [hnamed, hmade]
  simp only [bind, Except.bind]
  split
  · exact ⟨_, rfl⟩
  · exact ⟨_, rfl⟩

/-- What is read without a failure that is told as it is was read without a failure. -/
theorem plain_eq_ok_iff
    {α : Type}
    {read : Except Store.Fault α}
    {a : α} :
    Fault.plain read = .ok a ↔ read = .ok a := by
  cases read <;> simp [Fault.plain]

section Reports

variable {s : Session} {log : List Event}

theorem sourcesBySuccess_of_log
    (hlog : s.tables.events = some log)
    (config : Configuration)
    (c : Context σ)
    (hkept : ∀ e ∈ log, e.uid.Kept)
    {blocks : List String}
    (hne : ratioRows Store.textLe (·.source) Uid.le (·.uid) s.now config log ≠ [])
    (h : (sourcesBySuccess config (s, c)).1 = .ok blocks) :
    let rows := ratioRows Store.textLe (·.source) Uid.le (·.uid) s.now config log
    ∃ lists,
      blocks = (rateTable "src_ipaddr" "unique_uids" Cell.toText rows).render :: lists ∧
      List.Forall₂ (ListsUids s.now log) rows lists := by
  intro rows
  have hnow : s.fixView.now = s.now := rfl
  simp only [sourcesBySuccess, onEvents, Session.read, Store.Tables.getEvents, hlog, Option.elim_some,
    hnow] at h
  obtain ⟨lists, hblocks, hlists⟩ := lists_of_report hne h
  refine ⟨lists, hblocks, hlists.imp ?_⟩
  rintro r list ⟨hr, hlist⟩
  obtain ⟨ns, hns, hlist⟩ := exists_of_bind_eq_ok hlist
  cases hlist
  exact listsUids_of_mem_ratioRows hkept hr (plain_eq_ok_iff.mp hns)

/-- With user ids that are whole numbers and sources that are texts the report on addresses does not fail. -/
theorem sourcesBySuccess_of_integers
    (hlog : s.tables.events = some log)
    (config : Configuration)
    (c : Context σ)
    (huids : ∀ e ∈ log, ∃ n, e.uid = .integer n)
    (htexts : ∀ e ∈ log, ∃ t, e.source = .text t) :
    ∃ blocks, (sourcesBySuccess config (s, c)).1 = .ok blocks := by
  have hnow : s.fixView.now = s.now := rfl
  have hread (source : String) : ∃ ns, (uidsOfSource source log).mapM integerUid = .ok ns := by
    refine exists_mapM_eq_ok fun uid huid => ?_
    have hvalue := (Store.mem_distinct (Store.ranked_uids (discerned_of_log huids)) ?_ uid).mp huid
    · obtain ⟨e, he, rfl⟩ := List.mem_map.mp hvalue
      obtain ⟨n, hn⟩ := huids e (List.mem_of_mem_filter (List.mem_of_mem_filter he))
      exact ⟨n, integerUid_eq_ok_iff.mpr hn⟩
    · intro v hv
      obtain ⟨e, he, rfl⟩ := List.mem_map.mp hv
      exact List.mem_map_of_mem (List.mem_of_mem_filter (List.mem_of_mem_filter he))
  simp only [sourcesBySuccess, onEvents, Session.read, Store.Tables.getEvents, hlog, Option.elim_some, hnow]
  refine report_of_lists Cell.textFault? (fun r hr => ?_) (fun r _ => ?_) _
  · obtain ⟨e, he, hkey⟩ :=
      exists_key_of_mem_ratioRows Store.ranked_cells.orderedBy (fun _ _ => trivial) hr
    obtain ⟨t, ht⟩ := htexts e he
    rw [← hkey, ht]
    rfl
  · obtain ⟨ns, hns⟩ := hread r.key.toText
    rw [hns]
    exact ⟨_, rfl⟩

theorem uidsBySuccess_of_log
    (hlog : s.tables.events = some log)
    (config : Configuration)
    (c : Context σ)
    (hkept : ∀ e ∈ log, e.uid.Kept)
    {blocks : List String}
    (hne : ratioRows Uid.le (·.uid) Store.textLe (·.source) s.now config log ≠ [])
    (h : (uidsBySuccess config (s, c)).1 = .ok blocks) :
    let rows := ratioRows Uid.le (·.uid) Store.textLe (·.source) s.now config log
    ∃ lists,
      blocks = (rateTable "uid" "unique_ips" Uid.toText rows).render :: lists ∧
      List.Forall₂ (ListsSources s.now log) rows lists := by
  intro rows
  have hnow : s.fixView.now = s.now := rfl
  simp only [uidsBySuccess, onEvents, Session.read, Store.Tables.getEvents, hlog, Option.elim_some,
    hnow] at h
  obtain ⟨lists, hblocks, hlists⟩ := lists_of_report hne h
  refine ⟨lists, hblocks, hlists.imp ?_⟩
  rintro r list ⟨hr, hlist⟩
  obtain ⟨_, htexts, hlist⟩ := exists_of_bind_eq_ok hlist
  cases hlist
  exact listsSources_of_mem_ratioRows hkept hr (plain_eq_ok_iff.mp htexts)

/-- Without bytes in the log the report on user ids does not fail. -/
theorem uidsBySuccess_of_no_bytes
    (hlog : s.tables.events = some log)
    (config : Configuration)
    (c : Context σ)
    (hkept : ∀ e ∈ log, e.uid.Kept)
    (hbytes : ∀ e ∈ log, ∀ b, e.source ≠ .bytes b ∧ e.uid ≠ .text (.bytes b)) :
    ∃ blocks, (uidsBySuccess config (s, c)).1 = .ok blocks := by
  have hnow : s.fixView.now = s.now := rfl
  have htexts : ∀ source ∈ log.map (·.source), ∃ t, source = .text t := by
    intro source hsource
    obtain ⟨e, he, rfl⟩ := List.mem_map.mp hsource
    cases hcell : e.source with
    | text t => exact ⟨t, rfl⟩
    | bytes b => exact absurd hcell (hbytes e he b).1
  simp only [uidsBySuccess, onEvents, Session.read, Store.Tables.getEvents, hlog, Option.elim_some, hnow]
  refine report_of_lists Uid.textFault? (fun r hr => ?_) (fun r _ => ?_) _
  · obtain ⟨e, he, hkey⟩ := exists_key_of_mem_ratioRows Store.orderedBy_kept hkept hr
    rw [← hkey]
    cases huid : e.uid with
    | integer n => rfl
    | real x => rfl
    | text cell =>
        cases cell with
        | text t => rfl
        | bytes b => exact absurd huid (hbytes e he b).2
  · have hread : onlyTexts "src_ipaddr" (sourcesOfUid r.key.toText log) = .ok () := by
      refine onlyTexts_of_texts _ fun source hsource => ?_
      rw [sourcesOfUid, Store.mem_distinct Store.ranked_cells fun _ _ => trivial] at hsource
      obtain ⟨e, he, rfl⟩ := List.mem_map.mp hsource
      exact htexts _ (List.mem_map_of_mem (List.mem_of_mem_filter (List.mem_of_mem_filter he)))
    rw [hread]
    exact ⟨_, rfl⟩

end Reports

/-- **The lists under the rankings by success.**  Let the user ids of the log be such that a column of whole
numbers holds them.  Where there are rows, the report on addresses, if it succeeds, shows the table and after it
one list for each row, in the order of the rows, which names the source of the row.  If the source is a text, the
list holds exactly the user ids of the sessions that were opened by the events from which the row was made, in
ascending order and at least one; for a source of bytes it holds those of the sessions from the text that the
bytes spell.  With user ids that are whole numbers and sources that are texts the report succeeds.

The report on user ids shows a table and a list for each row likewise, and without bytes in the log it succeeds.
If the user id of a row is a whole number, its list holds exactly the sources of the sessions of its events, at
least one; for any other user id it holds those of the sessions of another account. -/
theorem successReports_list_sessions
    (config : Configuration)
    (s : Session)
    (c : Context σ)
    (log : List Event)
    (hlog : s.tables.events = some log)
    (hkept : ∀ e ∈ log, e.uid.Kept) :
    let sources := ratioRows Store.textLe (·.source) Uid.le (·.uid) s.now config log
    let uids := ratioRows Uid.le (·.uid) Store.textLe (·.source) s.now config log
    (∀ blocks, sources ≠ [] → (sourcesBySuccess config (s, c)).1 = .ok blocks →
      ∃ lists,
        blocks = (rateTable "src_ipaddr" "unique_uids" Cell.toText sources).render :: lists ∧
        List.Forall₂ (ListsUids s.now log) sources lists) ∧
    ((∀ e ∈ log, ∃ n, e.uid = .integer n) → (∀ e ∈ log, ∃ t, e.source = .text t) →
      ∃ blocks, (sourcesBySuccess config (s, c)).1 = .ok blocks) ∧
    (∀ blocks, uids ≠ [] → (uidsBySuccess config (s, c)).1 = .ok blocks →
      ∃ lists,
        blocks = (rateTable "uid" "unique_ips" Uid.toText uids).render :: lists ∧
        List.Forall₂ (ListsSources s.now log) uids lists) ∧
    ((∀ e ∈ log, ∀ b, e.source ≠ .bytes b ∧ e.uid ≠ .text (.bytes b)) →
      ∃ blocks, (uidsBySuccess config (s, c)).1 = .ok blocks) := by
  intro sources uids
  exact ⟨fun _ => sourcesBySuccess_of_log hlog config c hkept,
    sourcesBySuccess_of_integers hlog config c, fun _ => uidsBySuccess_of_log hlog config c hkept,
    uidsBySuccess_of_no_bytes hlog config c hkept⟩

/-- A source of bytes is asked for as the text that they spell, which its own sessions do not come from. -/
example :
    let login : Event := ⟨.bytes [49], .openSession, .integer 1001, "2024-03-18 08:01:00"⟩
    login.source.toText = "1" ∧ uidsOfSource login.source.toText [login] = [] := by
  decide +kernel

/-- Sessions of two accounts from one address, and of the first of them from another one. -/
def sharedLog : List Event :=
  [⟨"198.51.100.7", .auth, .integer 1001, "2024-03-18 08:00:00"⟩,
    ⟨"198.51.100.7", .auth, .integer 1001, "2024-03-18 08:00:10"⟩,
    ⟨"198.51.100.7", .auth, .integer 1001, "2024-03-18 08:00:20"⟩,
    ⟨"198.51.100.7", .openSession, .integer 1001, "2024-03-18 08:01:00"⟩,
    ⟨"198.51.100.7", .openSession, .integer 1000, "2024-03-18 08:30:00"⟩,
    ⟨"192.0.2.1", .openSession, .integer 1001, "2024-03-18 09:00:00"⟩]

/-- A ranking lists one key alone if it passes and no other key has authentications. -/
theorem keys_eq_singleton
    [DecidableEq κ]
    [DecidableEq δ]
    {key : Event → κ}
    {other : Event → δ}
    {below : κ → κ → Prop}
    {now : Int}
    {config : Configuration}
    {log : List Event}
    {rows : List (RatioRow κ)}
    (h : RanksBySuccess key other below now config log rows)
    (htop : 0 < config.topN)
    {k : κ}
    (hpasses :
      let r := keyRow key other now log k
      0 < r.auths ∧ 0 < r.sessions ∧ r.ratio.lt config.threshold = true)
    (hauths : ∀ e ∈ log, e.kind = .auth → key e = k) :
    rows.map (·.key) = [k] := by
  obtain ⟨all, hrows, hmem, hnodup, -⟩ := h.first
  have hkeys : all.map (·.key) = [k] := by
    refine List.perm_singleton.mp
      ((List.perm_ext_iff_of_nodup hnodup (List.nodup_singleton _)).mpr fun k' => ?_)
    rw [List.mem_singleton]
    constructor
    · intro hk'
      obtain ⟨r, hr, rfl⟩ := List.mem_map.mp hk'
      obtain ⟨hrow, hpositive, -⟩ := (hmem r).mp hr
      rw [hrow] at hpositive
      obtain ⟨e, he, hkind⟩ := List.countP_pos_iff.mp hpositive
      obtain ⟨hlog, hkey⟩ := List.mem_filter.mp he
      rw [← of_decide_eq_true hkey]
      exact hauths e hlog (of_decide_eq_true hkind)
    · rintro rfl
      exact List.mem_map.mpr ⟨_, (hmem (keyRow key other now log k')).mpr ⟨rfl, hpasses⟩, rfl⟩
  have hone : all.length = 1 := by simpa using congrArg List.length hkeys
  rw [hrows, List.take_of_length_le (by omega), hkeys]

/-- Both lists are complete and ascend. -/
theorem sharedLog_listed :
    let s : Session := { committed := ⟨some sharedLog, some []⟩, now := 1710892800 }
    let config : Configuration := { threshold := Double.ofDecimal false 1 0 }
    (∀ e ∈ sharedLog, e.uid.Kept) ∧
    (∃ table,
      (sourcesBySuccess config (s, Context.idle)).1 =
        .ok [table,
          "    - src_ipaddr \"198.51.100.7\", sessions granted on uids:\n        - 1000\n        - 1001"]) ∧
    ∃ table,
      (uidsBySuccess config (s, Context.idle)).1 =
        .ok [table,
          "    - uid \"1001\", sessions granted on IPs:\n        - 192.0.2.1\n        - 198.51.100.7"] := by
  intro s config
  have hkept : ∀ e ∈ sharedLog, e.uid.Kept := by
    simp [sharedLog, Uid.Kept, Store.fitsInt64, Decimal.int64Max]
  obtain ⟨hsources, hsucceeds, huids, hsucceeds'⟩ :=
    successReports_list_sessions config s Context.idle sharedLog rfl hkept
  have hintegers : ∀ e ∈ sharedLog, ∃ n, e.uid = .integer n := by simp [sharedLog]
  have hranked := Store.ranked_uids (discerned_of_log hintegers)
  have hmem : ∀ e ∈ sharedLog, e.uid ∈ sharedLog.map (·.uid) := fun e he => List.mem_map_of_mem he
  have hkeys : (ratioRows Store.textLe (·.source) Uid.le (·.uid) s.now config sharedLog).map (·.key) =
      [.text "198.51.100.7"] :=
    keys_eq_singleton
      (ranksBySuccess_ratioRows Store.ranked_cells (fun _ _ => trivial) hranked hmem
        (fun _ _ _ _ hless => hless) s.now config (by decide +kernel) (by decide) (by decide))
      (by decide) (by decide +kernel) (by decide +kernel)
  have hkeys' : (ratioRows Uid.le (·.uid) Store.textLe (·.source) s.now config sharedLog).map (·.key) =
      [.integer 1001] :=
    keys_eq_singleton
      (ranksBySuccess_ratioRows hranked hmem Store.ranked_cells (fun _ _ => trivial)
        (fun e he e' he' => numberBelow_of_rank_lt (hintegers e he) (hintegers e' he'))
        s.now config (by decide +kernel) (by decide) (by decide))
      (by decide) (by decide +kernel) (by decide +kernel)
  obtain ⟨r, hrows, hkey⟩ := List.map_eq_singleton_iff.mp hkeys
  obtain ⟨r', hrows', hkey'⟩ := List.map_eq_singleton_iff.mp hkeys'
  rw [hrows] at hsources
  rw [hrows'] at huids
  refine ⟨hkept, ?_, ?_⟩
  · obtain ⟨blocks, hblocks⟩ := hsucceeds hintegers (by simp [sharedLog])
    obtain ⟨lists, rfl, hlists⟩ := hsources blocks (List.cons_ne_nil _ _) hblocks
    obtain ⟨list, rest, ⟨-, ns, rfl, hascends, -, hwhole⟩, hrest, rfl⟩ :=
      List.forall₂_cons_left_iff.mp hlists
    obtain rfl := List.forall₂_nil_left_iff.mp hrest
    obtain ⟨-, huids⟩ := hwhole ⟨_, hkey⟩
    have hopenings : (openings (sharedLog.filter fun e => e.source = r.key)).map (·.uid) =
        [.integer 1001, .integer 1000] := by
      rw [hkey]
      decide +kernel
    have hmem (n : Int) : n ∈ ns ↔ n ∈ [1000, 1001] := by
      rw [huids.mem_iff, hopenings]
      simp [or_comm]
    rw [hblocks, hascends.eq_of_mem_iff (by decide) hmem, hkey]
    exact ⟨_, rfl⟩
  · obtain ⟨blocks, hblocks⟩ := hsucceeds' (by simp [sharedLog])
    obtain ⟨lists, rfl, hlists⟩ := huids blocks (List.cons_ne_nil _ _) hblocks
    obtain ⟨list, rest, ⟨-, sources, rfl, hascends, -, hwhole⟩, hrest, rfl⟩ :=
      List.forall₂_cons_left_iff.mp hlists
    obtain rfl := List.forall₂_nil_left_iff.mp hrest
    obtain ⟨-, hsources⟩ := hwhole ⟨1001, hkey'⟩
    have hopenings : (openings (sharedLog.filter fun e => e.uid.le r'.key && r'.key.le e.uid)).map
        (·.source) = [.text "198.51.100.7", .text "192.0.2.1"] := by
      rw [hkey']
      decide +kernel
    have hmem (source : String) : source ∈ sources ↔ source ∈ ["192.0.2.1", "198.51.100.7"] := by
      rw [hsources.mem_iff, hopenings]
      simp [or_comm]
    rw [hblocks, hascends.eq_of_mem_iff (by decide) hmem, hkey']
    exact ⟨_, rfl⟩

/-- An account with a name for its number, and a session of the account 0. -/
def namedLog : List Event :=
  [⟨"198.51.100.7", .auth, .text "abc", "2024-03-18 08:00:00"⟩,
    ⟨"198.51.100.7", .auth, .text "abc", "2024-03-18 08:00:10"⟩,
    ⟨"198.51.100.7", .auth, .text "abc", "2024-03-18 08:00:20"⟩,
    ⟨"198.51.100.7", .openSession, .text "abc", "2024-03-18 08:01:00"⟩,
    ⟨"192.0.2.1", .openSession, .integer 0, "2024-03-18 09:00:00"⟩]

/-- Under the name the session of the account 0 is listed, and not the one that was opened with the name. -/
theorem namedLog_lists_other_account :
    let s : Session := { committed := ⟨some namedLog, some []⟩, now := 1710892800 }
    let config : Configuration := { threshold := Double.ofDecimal false 5 (-1) }
    (∀ e ∈ namedLog, e.uid.Kept) ∧
    (∃ table,
      (uidsBySuccess config (s, Context.idle)).1 =
        .ok [table, "    - uid \"abc\", sessions granted on IPs:\n        - 192.0.2.1"]) ∧
    ∀ e ∈ openings namedLog, e.uid = .text "abc" ↔ e.source = "198.51.100.7" := by
  intro s config
  have hgroups : Store.groups Uid.le (·.uid) namedLog =
      [(.integer 0, namedLog.drop 4), (.text "abc", namedLog.take 4)] := by
    cbv
  have hkeys : (ratioRows Uid.le (·.uid) Store.textLe (·.source) s.now config namedLog).map (·.key) =
      [.text "abc"] := by
    unfold ratioRows
    rw [hgroups]
    simp only [List.map_cons, List.map_nil]
    rw [List.filter_cons_of_neg (by decide +kernel), List.filter_cons_of_pos (by decide +kernel),
      List.filter_nil, Store.rankBy, List.mergeSort_singleton]
    decide +kernel
  have hkept : ∀ e ∈ namedLog, e.uid.Kept := by
    simp [namedLog, Uid.Kept, Store.fitsInt64, Decimal.int64Max]
  have hne : ratioRows Uid.le (·.uid) Store.textLe (·.source) s.now config namedLog ≠ [] :=
    fun hnil => by simp [hnil] at hkeys
  have hlog : s.tables.events = some namedLog := rfl
  obtain ⟨blocks, hblocks⟩ :=
    uidsBySuccess_of_no_bytes hlog config Context.idle hkept (by simp [namedLog])
  obtain ⟨lists, rfl, hlists⟩ := uidsBySuccess_of_log hlog config Context.idle hkept hne hblocks
  obtain ⟨r, hrows, hkey⟩ := List.map_eq_singleton_iff.mp hkeys
  rw [hrows] at hlists hblocks
  obtain ⟨list, rest, ⟨-, sources, rfl, hascends, hsources, -⟩, hrest, rfl⟩ :=
    List.forall₂_cons_left_iff.mp hlists
  obtain rfl := List.forall₂_nil_left_iff.mp hrest
  -- the name starts with no digit, so it is asked for as the account 0
  have hasked : ((openings namedLog).filter fun e =>
      e.uid.isInteger (Store.leadingInteger r.key.toText)).map (·.source) = [.text "192.0.2.1"] := by
    rw [hkey]
    decide +kernel
  have hmem (source : String) : source ∈ sources ↔ source ∈ ["192.0.2.1"] := by
    rw [hsources.mem_iff, hasked]
    simp
  rw [hascends.eq_of_mem_iff (List.pairwise_singleton _ _) hmem, hkey] at hblocks
  exact ⟨hkept, ⟨_, hblocks⟩, by decide +kernel⟩

end Task

end AccessAudit
