import AccessAudit.Proofs.Enrichment.Asking
import AccessAudit.Proofs.Task.Annotation
import AccessAudit.Proofs.Task.KeyFacts

/-!
# Rankings by volume are exact

A ranking by volume lists the first of all keys with enough events, the most events first and equal numbers
by key, and shows the true counts of each.  A greater limit only lists more.  The addresses that are listed
are those that are looked up, in the order in which they are listed.
-/

namespace AccessAudit

open Store (Cell Event Uid Ranked Session)

/-- The same context over a source that writes down what it is asked. -/
def Context.transcribed {σ : Type} (c : Context σ) (said : Transcript) : Context (σ × Transcript) :=
  { cache := c.cache.transcribed said, referenceLoaded := c.referenceLoaded, notices := c.notices }

namespace Task

variable {σ : Type}

/-! ### Ranked keys -/

section Keys

variable {κ δ ρ τ : Type} [DecidableEq κ] [DecidableEq δ] [LinearOrder ρ] [LinearOrder τ]

/-- What the log tells of a key. -/
def keyVolume (key : Event → κ) (other : Event → δ) (now : Int) (log : List Event) (k : κ) :
    VolumeRow κ :=
  let events := log.filter fun e => key e = k
  { key := k
    events := events.length
    counterparts := (events.map other).toFinset.card
    period := period now events }

/-- The rows for every limit of 64 bits are the first ones of a ranking of all keys with enough events, so
that those for a smaller limit are a beginning of those for a greater one. -/
structure RanksByVolume (key : Event → κ) (other : Event → δ) (below : κ → κ → Prop) (now : Int)
    (log : List Event) (rows : Nat → List (VolumeRow κ)) : Prop where
  first : ∃ all : List (VolumeRow κ),
    (∀ topN < 2 ^ 64, rows topN = all.take topN) ∧
    (∀ r, r ∈ all ↔ r = keyVolume key other now log r.key ∧ minEventCount < r.events) ∧
    (all.map (·.key)).Nodup ∧
    all.Pairwise fun r r' => r'.events < r.events ∨ r.events = r'.events ∧ below r.key r'.key
  grows : ∀ fewer more, fewer ≤ more → more < 2 ^ 64 → rows fewer <+: rows more

section Groups

variable {le : κ → κ → Bool} {rank : κ → ρ} {keys : κ → Prop} {key : Event → κ}
  {otherLe : δ → δ → Bool} {otherRank : δ → τ} {others : δ → Prop} {other : Event → δ}
  {log : List Event}

theorem occurs_of_events
    {now : Int}
    {k : κ}
    (h : 0 < (keyVolume key other now log k).events) :
    ∃ e ∈ log, key e = k := by
  obtain ⟨e, he⟩ := List.exists_mem_of_length_pos h
  exact ⟨e, List.mem_of_mem_filter he, of_decide_eq_true (List.mem_filter.mp he).2⟩

/-- The rows of the keys with enough events before they are ranked. -/
def busyRows (le : κ → κ → Bool) (key : Event → κ) (other : Event → δ) (now : Int)
    (log : List Event) : List (VolumeRow κ) :=
  Store.listing le key (keyVolume key other now log) (fun r => minEventCount < r.events) log

theorem volumeRows_eq
    (h : Ranked le rank keys)
    (hkeys : ∀ e ∈ log, keys (key e))
    (hother : Ranked otherLe otherRank others)
    (hothers : ∀ e ∈ log, others (other e))
    (now : Int)
    (topN : Nat) :
    volumeRows le key otherLe other now topN log =
      Store.limit topN
        (Store.rankBy
          [Store.descending fun r => (r.events : Int), Store.ascendingBy le fun r => r.key]
          (busyRows le key other now log)) := by
  unfold volumeRows busyRows
  dsimp only
  congr 2
  refine Store.listing_eq_map (fun group hgroup => ?_) (fun group hgroup => ?_)
  · obtain ⟨hkey, hperm, hcounterparts, hperiod⟩ :=
      told_of_group h hkeys hother hothers now hgroup
    simp only [keyVolume, hkey, hcounterparts, hperiod, hperm.length_eq]
  · rw [(Store.group_perm_filter h hkeys hgroup).length_eq]
    rfl

theorem mem_busyRows
    (h : Ranked le rank keys)
    (hkeys : ∀ e ∈ log, keys (key e))
    (other : Event → δ)
    (now : Int)
    (r : VolumeRow κ) :
    r ∈ busyRows le key other now log ↔
      r = keyVolume key other now log r.key ∧ minEventCount < r.events := by
  unfold busyRows
  rw [Store.mem_listing h hkeys VolumeRow.key (fun _ => rfl), decide_eq_true_iff]
  intro k hk
  exact occurs_of_events ((Nat.zero_le _).trans_lt (of_decide_eq_true hk))

theorem nodup_keys_busyRows
    (h : Ranked le rank keys)
    (hkeys : ∀ e ∈ log, keys (key e))
    (other : Event → δ)
    (now : Int) :
    ((busyRows le key other now log).map (·.key)).Nodup :=
  Store.nodup_keys_listing h hkeys VolumeRow.key (fun _ => rfl) _

/-- The two criteria rank the listed keys strictly, by volume from the greatest and then by key. -/
theorem pairwise_busyRows
    (h : Ranked le rank keys)
    (hkeys : ∀ e ∈ log, keys (key e))
    (other : Event → δ)
    (now : Int) :
    (Store.rankBy [Store.descending fun r => (r.events : Int), Store.ascendingBy le fun r => r.key]
        (busyRows le key other now log)).Pairwise
      fun r r' => r'.events < r.events ∨ r.events = r'.events ∧ rank r.key < rank r'.key := by
  have hkey {r : VolumeRow κ} (hr : r ∈ busyRows le key other now log) : keys r.key :=
    Store.keys_of_mem_listing h hkeys VolumeRow.key (fun _ => rfl) hr
  have hvolume := Store.compares_descending fun r : VolumeRow κ => (r.events : Int)
  have hbykey (a b : VolumeRow κ) (ha : a ∈ busyRows le key other now log)
      (hb : b ∈ busyRows le key other now log) :
      (Store.ascendingBy le VolumeRow.key a b).Compares (rank a.key) (rank b.key) :=
    h.compares_ascendingBy VolumeRow.key (hkey ha) (hkey hb)
  have hranks : ((busyRows le key other now log).map fun r => rank r.key).Nodup :=
    Store.nodup_ranks_listing h hkeys VolumeRow.key (fun _ => rfl) _
  refine (Store.pairwise_rankBy_pair (fun a b _ _ => hvolume a b) hbykey hranks).imp
    fun {a b} hless => ?_
  rcases hless with hvolume | ⟨hvolume, hkey⟩
  · exact .inl (Int.ofNat_lt.mp (OrderDual.toDual_lt_toDual.mp hvolume))
  · exact .inr ⟨Int.natCast_inj.mp (OrderDual.toDual_inj.mp hvolume), hkey⟩

theorem ranksByVolume_volumeRows
    (h : Ranked le rank keys)
    (hkeys : ∀ e ∈ log, keys (key e))
    (hother : Ranked otherLe otherRank others)
    (hothers : ∀ e ∈ log, others (other e))
    {below : κ → κ → Prop}
    (hbelow : ∀ e ∈ log, ∀ e' ∈ log, rank (key e) < rank (key e') → below (key e) (key e'))
    (now : Int)
    (hlog : log.length < 2 ^ 63) :
    RanksByVolume key other below now log
      fun topN => volumeRows le key otherLe other now topN log := by
  let all := Store.rankBy
    [Store.descending fun r => (r.events : Int), Store.ascendingBy le fun r => r.key]
    (busyRows le key other now log)
  have hperm : all.Perm (busyRows le key other now log) := Store.perm_rankBy _ _
  have hfew : all.length < 2 ^ 63 := by
    rw [hperm.length_eq]
    exact (Store.length_listing_le h hkeys VolumeRow.key (fun _ => rfl) _).trans_lt hlog
  have htake (topN : Nat) (htop : topN < 2 ^ 64) :
      volumeRows le key otherLe other now topN log = all.take topN :=
    (volumeRows_eq h hkeys hother hothers now topN).trans (Store.limit_eq_take htop hfew)
  refine ⟨⟨all, htake, fun r => hperm.mem_iff.trans (mem_busyRows h hkeys other now r),
    (hperm.map _).nodup_iff.mpr (nodup_keys_busyRows h hkeys other now), ?_⟩, ?_⟩
  · refine (pairwise_busyRows h hkeys other now).imp_of_mem fun {a b} ha hb hless => ?_
    exact hless.imp_right (And.imp_right (Store.below_of_mem_listing h hkeys VolumeRow.key
      (fun _ => rfl) hbelow (hperm.mem_iff.mp ha) (hperm.mem_iff.mp hb)))
  · intro fewer more hle hmore
    rw [htake fewer (hle.trans_lt hmore), htake more hmore]
    exact List.take_prefix_take_left hle

end Groups

/-- A listed key occurs in the log. -/
theorem RanksByVolume.occurs
    {key : Event → κ}
    {other : Event → δ}
    {below : κ → κ → Prop}
    {now : Int}
    {log : List Event}
    {rows : Nat → List (VolumeRow κ)}
    (h : RanksByVolume key other below now log rows)
    {topN : Nat}
    (htop : topN < 2 ^ 64)
    {r : VolumeRow κ}
    (hr : r ∈ rows topN) :
    ∃ e ∈ log, key e = r.key := by
  obtain ⟨all, hrows, hmem, -, -⟩ := h.first
  rw [hrows topN htop] at hr
  obtain ⟨hrow, hbusy⟩ := (hmem r).mp (List.mem_of_mem_take hr)
  rw [hrow] at hbusy
  exact occurs_of_events ((Nat.zero_le _).trans_lt hbusy)

end Keys

/-! ### Reports -/

/-- The table of addresses, each with its counts and the record that was found of it. -/
def sourceVolumes (rows : List (VolumeRow Cell)) (records : List Record) : String :=
  let table : Table :=
    { headers :=
        ["event_count", "src_ipaddr", "unique_uids", "period", "avg_per_hour",
          "org cidr", "org country", "org descrip"]
      rows :=
        List.zipWith
          (fun r record =>
            [Decimal.groupedText r.events, r.key.toText, Decimal.groupedText r.counterparts,
              Calendar.periodText r.period, Calendar.hourlyRate r.events r.period,
              record.cidr, record.country, record.description])
          rows records
      alignments :=
        [("event_count", .right), ("src_ipaddr", .left), ("unique_uids", .right), ("period", .right),
          ("avg_per_hour", .right), ("org cidr", .right), ("org country", .center),
          ("org descrip", .left)] }
  if rows.isEmpty then "No matching data." else table.render

/-- The table of user ids, each with its counts. -/
def uidVolumes (rows : List (VolumeRow Uid)) : String :=
  let table : Table :=
    { headers := ["uid", "event_count", "unique_ips", "period", "avg_per_hour"]
      rows := rows.map fun r =>
        [r.key.toText, Decimal.groupedText r.events, Decimal.groupedText r.counterparts,
          Calendar.periodText r.period, Calendar.hourlyRate r.events r.period]
      alignments :=
        [("uid", .left), ("event_count", .right), ("unique_ips", .right), ("period", .right),
          ("avg_per_hour", .right)] }
  if rows.isEmpty then "No matching data." else table.render

section Reports

variable {s : Session} {log : List Event}

theorem topSources_eq
    (hlog : s.tables.events = some log)
    (config : Configuration)
    (c : Context σ)
    {rows : List (VolumeRow Cell)}
    (hrows : volumeRows Store.textLe (·.source) Uid.le (·.uid) s.now config.topN log = rows)
    (hkeys : ∀ r ∈ rows, ∃ t, r.key = .text t)
    {found : List Record × Cache σ}
    (hfound : c.cache.annotateAll (rows.map (·.key.toText)) = found) :
    topSources config (s, c) =
      (.ok [sourceVolumes rows found.1], (s.fixView, { c with cache := found.2 })) := by
  subst hfound
  have hnow : s.fixView.now = s.now := rfl
  have htexts : onlyTexts "src_ipaddr" (rows.map (·.key)) = .ok () :=
    onlyTexts_of_texts _ (List.forall_mem_map.mpr hkeys)
  simp only [topSources, Session.read, Store.Tables.getEvents, hlog, Option.elim_some, hnow, hrows, htexts]
  by_cases hempty : rows.isEmpty
  · rw [if_pos hempty, sourceVolumes, if_pos hempty, List.isEmpty_iff.mp hempty]
    rfl
  · rw [if_neg hempty, sourceVolumes, if_neg hempty, Sketch.annotatedTable_map]
    rfl

/-- A listed address that is stored as bytes makes the report fail. -/
theorem topSources_of_bytes
    (hlog : s.tables.events = some log)
    (config : Configuration)
    (c : Context σ)
    (hbytes : ∃ r ∈ volumeRows Store.textLe (·.source) Uid.le (·.uid) s.now config.topN log,
      ∃ b, r.key = .bytes b) :
    topSources config (s, c) =
      (.error (Fault.ofStore (.columnType .blob 0 "src_ipaddr")), (s.fixView, c)) := by
  have hnow : s.fixView.now = s.now := rfl
  obtain ⟨r, hr, b, hkey⟩ := hbytes
  have hread := onlyTexts_of_bytes "src_ipaddr" ⟨r.key, List.mem_map_of_mem hr, b, hkey⟩
  simp only [topSources, Session.read, Store.Tables.getEvents, hlog, Option.elim_some, hnow, hread]

theorem topUids_eq
    (hlog : s.tables.events = some log)
    (config : Configuration)
    (c : Context σ) :
    let listed := volumeRows Uid.le (·.uid) Store.textLe (·.source) s.now config.topN log
    (∀ r ∈ listed, ∃ n, r.key = .integer n) →
    topUids config (s, c) = (.ok [uidVolumes listed], (s.fixView, c)) := by
  intro listed hkeys
  have hnow : s.fixView.now = s.now := rfl
  obtain ⟨ns, hns⟩ := exists_mapM_integerUid hkeys
  have hcells : ((ns.zip listed).map fun x =>
        Decimal.text x.1 :: Decimal.groupedText x.2.events :: volumeCells x.2) =
      listed.map fun r =>
        [r.key.toText, Decimal.groupedText r.events, Decimal.groupedText r.counterparts,
          Calendar.periodText r.period, Calendar.hourlyRate r.events r.period] :=
    map_zip_integers (mapM_integerUid_iff.mp hns) fun key r =>
      key :: Decimal.groupedText r.events :: volumeCells r
  simp only [topUids, onEvents, Session.read, Store.Tables.getEvents, hlog, Option.elim_some, hnow]
  rw [hns, uidVolumes, ← hcells]
  rfl

end Reports

/-- **Rankings by volume are exact.**  Let the user ids of the log be whole numbers.  For addresses and for user
ids the rows for a limit are the first ones of a ranking of all keys with more events than the minimum, the most
events first and equal numbers by key; each row shows the true counts of its key, no key has two, and the rows for
a smaller limit are a beginning of those for a greater one, also of one that is no whole number of 64 bits with a
sign.  The report on user ids shows these rows.  So does the one on addresses where the listed addresses are texts,
and it annotates the listed addresses and nothing else, in the order in which they are listed: beside a source that
keeps a transcript it is the same, and the transcript grows by questions about those addresses in that order.
Where a listed address is stored as bytes, it fails and asks nothing. -/
theorem volumeReports_exact
    (s : Session)
    (c : Context σ)
    (log : List Event)
    (hlog : s.tables.events = some log)
    (huids : ∀ e ∈ log, ∃ n, e.uid = .integer n)
    (hlength : log.length < 2 ^ 63) :
    let sources := fun topN => volumeRows Store.textLe (·.source) Uid.le (·.uid) s.now topN log
    let uids := fun topN => volumeRows Uid.le (·.uid) Store.textLe (·.source) s.now topN log
    RanksByVolume (·.source) (·.uid) (· < ·) s.now log sources ∧
    RanksByVolume (·.uid) (·.source) NumberBelow s.now log uids ∧
    ∀ config : Configuration, config.topN < 2 ^ 64 →
      let listed := (sources config.topN).map (·.key.toText)
      let annotated := c.cache.annotateAll listed
      let table := sourceVolumes (sources config.topN) annotated.1
      let after := { c with cache := annotated.2 }
      topUids config (s, c) = (.ok [uidVolumes (uids config.topN)], (s.fixView, c)) ∧
      ((∀ r ∈ sources config.topN, ∃ t, r.key = .text t) →
        topSources config (s, c) = (.ok [table], (s.fixView, after)) ∧
        ∀ said, ∃ asked,
          topSources config (s, c.transcribed said) =
            (.ok [table], (s.fixView, after.transcribed (said ++ asked))) ∧
          Cache.AsksInOrder c.cache.Knows (listed.filterMap Address.ofLogged?) asked) ∧
      ((∃ r ∈ sources config.topN, ∃ b, r.key = .bytes b) →
        topSources config (s, c) =
          (.error (Fault.ofStore (.columnType .blob 0 "src_ipaddr")), (s.fixView, c))) := by
  intro sources uids
  have hranked := Store.ranked_uids (discerned_of_log huids)
  have hmem : ∀ e ∈ log, e.uid ∈ log.map (·.uid) := fun e he => List.mem_map_of_mem he
  have hsources : RanksByVolume (·.source) (·.uid) (· < ·) s.now log sources :=
    ranksByVolume_volumeRows Store.ranked_cells (fun _ _ => trivial) hranked hmem
      (fun _ _ _ _ hless => hless) s.now hlength
  have huidRows : RanksByVolume (·.uid) (·.source) NumberBelow s.now log uids :=
    ranksByVolume_volumeRows hranked hmem Store.ranked_cells (fun _ _ => trivial)
      (fun e he e' he' => numberBelow_of_rank_lt (huids e he) (huids e' he')) s.now hlength
  refine ⟨hsources, huidRows, fun config htop => ?_⟩
  intro listed annotated table after
  have hkeys : ∀ r ∈ uids config.topN, ∃ n, r.key = .integer n := by
    intro r hr
    obtain ⟨e, he, heq⟩ := huidRows.occurs htop hr
    exact heq ▸ huids e he
  refine ⟨topUids_eq hlog config c hkeys, fun haddresses => ?_, topSources_of_bytes hlog config c⟩
  refine ⟨topSources_eq hlog config c rfl haddresses rfl, fun said => ?_⟩
  obtain ⟨asked, hasked, horder⟩ := c.cache.annotateAll_transcribed said listed
  have hfound : (c.transcribed said).cache.annotateAll listed = _ := hasked
  refine ⟨asked, ?_, horder⟩
  rw [topSources_eq hlog config (c.transcribed said) rfl haddresses hfound]
  rfl

/-- Events of two addresses, of which one has the minimum and the other one more. -/
def thresholdLog : List Event :=
  List.replicate 2501 ⟨"192.0.2.1", .auth, .integer 1001, "2024-03-18 08:00:00"⟩ ++
    List.replicate 2500 ⟨"192.0.2.2", .auth, .integer 1002, "2024-03-18 09:00:00"⟩

theorem events_thresholdLog
    (now : Int)
    (k : Cell) :
    (keyVolume (·.source) (·.uid) now thresholdLog k).events =
      (if .text "192.0.2.1" = k then 2501 else 0) + (if .text "192.0.2.2" = k then 2500 else 0) := by
  unfold keyVolume thresholdLog
  dsimp only
  rw [List.filter_append, List.length_append, List.filter_replicate, List.filter_replicate]
  simp only [decide_eq_true_iff, apply_ite List.length, List.length_replicate, List.length_nil]

/-- Only the address with more events than the minimum is listed and asked about. -/
theorem thresholdLog_listed :
    let s : Session := { committed := ⟨some thresholdLog, some []⟩, now := 1710892800 }
    let rows := volumeRows Store.textLe (·.source) Uid.le (·.uid) s.now 20 thresholdLog
    (∀ e ∈ thresholdLog, ∃ n, e.uid = .integer n) ∧
    thresholdLog.length < 2 ^ 63 ∧
    rows.map (·.key) = [.text "192.0.2.1"] ∧
    let result := topSources {} (s, Context.idle.transcribed [])
    (∃ table, result.1 = .ok [table]) ∧
    result.2.2.cache.source.2.map (·.1) = [.v4 3221225985] := by
  intro s rows
  have huids : ∀ e ∈ thresholdLog, ∃ n, e.uid = .integer n := by
    intro e he
    rcases List.mem_append.mp he with he | he
    · exact ⟨1001, congrArg Event.uid (List.eq_of_mem_replicate he)⟩
    · exact ⟨1002, congrArg Event.uid (List.eq_of_mem_replicate he)⟩
  have hlength : thresholdLog.length < 2 ^ 63 := by
    unfold thresholdLog
    rw [List.length_append, List.length_replicate, List.length_replicate]
    decide
  obtain ⟨hsources, -, hreports⟩ :=
    volumeReports_exact s Context.idle thresholdLog rfl huids hlength
  obtain ⟨all, htake, hmem, hnodup, -⟩ := hsources.first
  have hall : all.map (·.key) = [.text "192.0.2.1"] := by
    refine List.perm_singleton.mp
      ((List.perm_ext_iff_of_nodup hnodup (List.nodup_singleton _)).mpr fun k => ?_)
    have hevents := events_thresholdLog s.now k
    constructor
    · intro hk
      obtain ⟨r, hr, rfl⟩ := List.mem_map.mp hk
      obtain ⟨hrow, hbusy⟩ := (hmem r).mp hr
      rw [hrow, hevents, minEventCount] at hbusy
      rw [List.mem_singleton]
      by_contra hother
      rw [if_neg (Ne.symm hother)] at hbusy
      split at hbusy <;> omega
    · intro hk
      obtain rfl := List.mem_singleton.mp hk
      refine List.mem_map.mpr ⟨_, (hmem (keyVolume _ _ s.now thresholdLog "192.0.2.1")).mpr ⟨rfl, ?_⟩, rfl⟩
      rw [hevents, minEventCount, if_pos rfl]
      exact Nat.lt_add_right _ (by decide)
  have hlisted : rows.map (·.key) = [.text "192.0.2.1"] := by
    have hone : all.length = 1 := by simpa using congrArg List.length hall
    rw [show rows = all.take 20 from htake 20 (by decide), List.take_of_length_le (by omega), hall]
  have htexts : ∀ r ∈ rows, ∃ t, r.key = .text t := by
    intro r hr
    have hkey : r.key ∈ rows.map (·.key) := List.mem_map_of_mem hr
    rw [hlisted, List.mem_singleton] at hkey
    exact ⟨_, hkey⟩
  obtain ⟨-, hexact, -⟩ := hreports {} (by decide)
  obtain ⟨-, hasked⟩ := hexact htexts
  obtain ⟨asked, hresult, horder⟩ := hasked []
  have hasks : Cache.AsksInOrder Context.idle.cache.Knows
      (((rows.map (·.key)).map Cell.toText).filterMap Address.ofLogged?) asked := by
    rw [List.map_map]
    exact horder
  have haddress : ([Cell.text "192.0.2.1"].map Cell.toText).filterMap Address.ofLogged? =
      [.v4 3221225985] := by
    decide +kernel
  rw [hlisted, haddress] at hasks
  cases hasks with
  | known ha hrest => exact absurd ha (by simp [Cache.Knows, Context.idle])
  | asked ha hrest =>
      cases hrest
      exact ⟨huids, hlength, hlisted, ⟨_, congrArg Prod.fst hresult⟩,
        congrArg (fun result => result.2.2.cache.source.2.map (·.1)) hresult⟩

end Task
end AccessAudit
