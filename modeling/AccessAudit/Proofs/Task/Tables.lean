import AccessAudit.Proofs.Enrichment.Echo
import AccessAudit.Proofs.Table.Cells
import AccessAudit.Proofs.Task.Annotation
import AccessAudit.Proofs.Task.SessionLists

/-!
# Texts from outside in the tables of the reports

The cells of a table are computed, or they are texts from outside: sources and user ids of the log, blocked
entities, and what lookups have found of a network.  Nothing is done to such a text before it becomes a cell.  So
a table is read back as its rows if and only if the texts from outside in it are plain; who chooses the name of a
network can put a bar or an end of a line into it.
-/

namespace AccessAudit

open Markdown
open Store (Cell Event Uid Session)

/-! ### Texts from outside -/

/-- A text that stands in the log or among the blocks. -/
inductive IsStored (s : Session) : String → Prop
  | source {events : List Event} {e : Event} (hlog : s.tables.events = some events) (he : e ∈ events) :
      IsStored s e.source.toText
  | uid {events : List Event} {e : Event} (hlog : s.tables.events = some events) (he : e ∈ events) :
      IsStored s e.uid.toText
  | entity {blocks : List (Option Cell)} {cell : Cell} (hblocks : s.tables.blocks = some blocks)
      (hcell : some cell ∈ blocks) : IsStored s cell.toText

section Annotations

variable {σ : Type}

/-- A text that lookups have found. -/
inductive IsFound (cache : Cache σ) : String → Prop
  | cell {a : Address} {r : Record} {text : String} (hr : (a, r) ∈ cache.records)
      (htext : text ∈ Task.orgCells r) : IsFound cache text
  | country {code : String} (hcode : code ∈ cache.countries) : IsFound cache code

namespace Cache

/-- What is remembered stays remembered. -/
theorem mem_records_step
    {c after : Cache σ}
    {entry : Address × Record}
    (hstep : Step c after)
    (h : entry ∈ c.records) :
    entry ∈ after.records := by
  cases hstep with
  | known => exact h
  | asked ha =>
      rw [records_asked]
      exact List.mem_append_left _ h

/-- An annotation is blank, or remembered from then on. -/
theorem annotate_eq_or_mem
    (c : Cache σ)
    (text : String) :
    (c.annotate text).1 = {} ∨ ∃ a, (a, (c.annotate text).1) ∈ (c.annotate text).2.records := by
  cases ha : Address.ofLogged? text with
  | none =>
      rw [annotate_of_none ha]
      exact .inl rfl
  | some a =>
      rw [annotate_of_address ha]
      cases hlookup : c.records.lookup a with
      | some r =>
          obtain ⟨before, after, hrecords, -⟩ := List.lookup_eq_some_iff.mp hlookup
          rw [lookup_of_known hlookup]
          exact .inr ⟨a, by simp [hrecords]⟩
      | none =>
          rw [lookup_of_unknown hlookup]
          dsimp only
          rw [records_asked]
          cases (c.ask c.source a).1.record? with
          | none => exact .inl rfl
          | some r => exact .inr ⟨a, by simp⟩

theorem eq_or_mem_of_mem_annotateAll
    {c : Cache σ}
    {texts : List String}
    {r : Record}
    (h : r ∈ (c.annotateAll texts).1) :
    r = {} ∨ ∃ a, (a, r) ∈ (c.annotateAll texts).2.records := by
  induction texts generalizing c with
  | nil => cases h
  | cons text rest ih =>
      rcases List.mem_cons.mp h with rfl | hrest
      · refine (c.annotate_eq_or_mem text).imp_right (Exists.imp fun a ha => ?_)
        exact annotateAll_induction (P := fun after => (a, (c.annotate text).1) ∈ after.records)
          (fun _ _ => mem_records_step) rest ha
      · exact ih hrest

end Cache

theorem isPlain_or_isFound_of_mem_orgCells
    {c : Cache σ}
    {texts : List String}
    {r : Record}
    (hr : r ∈ (c.annotateAll texts).1)
    {cell : String}
    (hcell : cell ∈ Task.orgCells r) :
    IsPlain cell ∨ IsFound (c.annotateAll texts).2 cell := by
  rcases Cache.eq_or_mem_of_mem_annotateAll hr with rfl | ⟨a, ha⟩
  · have hblank : cell = "" := by simpa [Task.orgCells] using hcell
    rw [hblank]
    exact .inl isPlain_empty
  · exact .inr (.cell ha hcell)

end Annotations

/-! ### Keys of the log -/

namespace Task

section Keys

variable {κ δ : Type} {le : κ → κ → Bool} {key : Event → κ} {otherLe : δ → δ → Bool} {other : Event → δ}
  {now : Int} {events : List Event}

theorem exists_key_of_mem_volumeRows
    {topN : Nat}
    {r : VolumeRow κ}
    (hr : r ∈ volumeRows le key otherLe other now topN events) :
    ∃ e ∈ events, key e = r.key := by
  have hrow := (Store.perm_rankBy _ _).mem_iff.mp (Store.mem_of_mem_limit hr)
  obtain ⟨group, hbusy, rfl⟩ := List.mem_map.mp hrow
  have hgroup := List.mem_of_mem_filter hbusy
  obtain ⟨e, he, hkey⟩ : ∃ e ∈ group.2, key e = listedKey key group :=
    exists_listedKey (Store.ne_nil_of_mem_groups hgroup)
  exact ⟨e, Store.mem_of_mem_groups hgroup he, hkey⟩

theorem exists_event_of_mem_ratioRows
    {config : Configuration}
    {r : RatioRow κ}
    (hr : r ∈ ratioRows le key otherLe other now config events) :
    ∃ e ∈ events, key e = r.key := by
  obtain ⟨group, hgroup, -, e, he, hkey⟩ := group_of_mem_ratioRows hr
  exact ⟨e, Store.mem_of_mem_groups hgroup he, hkey⟩

theorem exists_source_of_mem_openRows
    {networks : List Block}
    {topN : Nat}
    {r : OpenRow}
    (hr : r ∈ openRows networks topN events) :
    ∃ e ∈ events, e.source = r.source := by
  have hopen := (Store.perm_rankBy _ _).mem_iff.mp (Store.mem_of_mem_limit hr)
  obtain ⟨⟨⟨source, uid⟩, es⟩, hgroup, rfl⟩ := List.mem_map.mp (List.mem_of_mem_filter hopen)
  obtain ⟨e, he, hkey⟩ := Store.exists_key_of_mem_groups hgroup
  exact ⟨e, List.mem_of_mem_filter (Store.mem_of_mem_groups hgroup he), congrArg Prod.fst hkey⟩

end Keys

/-! ### Tables with texts from outside -/

/-- The headers of a part's table. -/
def Part.headers : Part → List String
  | .topSources => ["event_count", "src_ipaddr", "unique_uids", "period", "avg_per_hour"] ++ orgHeaders
  | .topUids => ["uid", "event_count", "unique_ips", "period", "avg_per_hour"]
  | .sourcesBySuccess =>
      ["success_ratio", "session_count", "auth_count", "src_ipaddr", "unique_uids", "period"]
  | .uidsBySuccess => ["success_ratio", "session_count", "auth_count", "uid", "unique_ips", "period"]
  | .openForeignSessions => ["uid", "src_ipaddr", "live_sessions", "total_events"] ++ orgHeaders
  | .foreignByAccount => ["uid", "unique_ips", "foreign_ips", "score"]
  | .firewallBlocks => ["ip_entity"] ++ orgHeaders
  | .countrySummary => ["org country", "addresses"]

theorem Part.isPlain_of_mem_headers
    {part : Part}
    {header : String}
    (h : header ∈ part.headers) :
    IsPlain header := by
  have hinert : ∀ part : Part, ∀ header ∈ part.headers, Inert header.toList := by
    intro part
    cases part <;> decide
  exact isPlain_of_inert (hinert part header h)

variable {σ : Type}

/-- A table with these headers, whose rows are as long and hold plain cells and texts from outside. -/
structure Tabulates (s : Session) (cache : Cache σ) (headers : List String) (t : Table) : Prop where
  headers_eq : t.headers = headers
  width : ∀ row ∈ t.rows, row.length = headers.length
  cells : ∀ row ∈ t.rows, ∀ cell ∈ row, IsPlain cell ∨ IsStored s cell ∨ IsFound cache cell

/-- The blocks of a report: a line that stands in for a table, or such a table and what follows it. -/
def Exhibits (s : Session) (cache : Cache σ) (headers : List String) (blocks : List String) : Prop :=
  blocks = [noMatchingData] ∨ blocks = [referenceUnavailable] ∨
    ∃ t following, blocks = t.render :: following ∧ Tabulates s cache headers t

section Parts

variable {config : Configuration} {s : Session} {loaded : Bool} {cache : Cache σ} {sketches : List Sketch}

/-- Rows that are made alike fill a table. -/
theorem tabulates_map
    {β : Type}
    {headers : List String}
    {rows : List β}
    {cells : β → List String}
    (alignments : List (String × Align))
    (hwidth : ∀ r ∈ rows, (cells r).length = headers.length)
    (hcells : ∀ r ∈ rows, ∀ cell ∈ cells r, IsPlain cell ∨ IsStored s cell ∨ IsFound cache cell) :
    Tabulates s cache headers ⟨headers, rows.map cells, alignments⟩ where
  headers_eq := rfl
  width := List.forall_mem_map.mpr hwidth
  cells := List.forall_mem_map.mpr hcells

/-- Rows of stored texts fill a table with the annotations of their addresses. -/
theorem exhibits_annotatedTable
    {columns : List (String × Align)}
    {rows : List (String × List String)}
    (hwidth : ∀ row ∈ rows, row.2.length = columns.length)
    (hcells : ∀ row ∈ rows, ∀ cell ∈ row.2, IsPlain cell ∨ IsStored s cell)
    (cache : Cache σ) :
    Exhibits s (Sketch.fillAll [.table columns rows] cache).2 (columns.map (·.1) ++ orgHeaders)
      (Sketch.fillAll [.table columns rows] cache).1 := by
  have hheaders : (columns ++ orgColumns).map (·.1) = columns.map (·.1) ++ orgHeaders := by
    simp [orgColumns, orgHeaders]
  rw [← hheaders]
  refine .inr (.inr ⟨_, [], rfl, tabulates_map _ ?_ ?_⟩)
  · rintro ⟨row, record⟩ hmem
    have hrow := hwidth row (List.of_mem_zip hmem).1
    simp [hrow, orgCells, orgColumns, orgHeaders]
  · rintro ⟨row, record⟩ hmem cell hcell
    obtain ⟨hrow, hrecord⟩ := List.of_mem_zip hmem
    rcases List.mem_append.mp hcell with hcell | hcell
    · exact (hcells row hrow cell hcell).imp_right .inl
    · exact (isPlain_or_isFound_of_mem_orgCells hrecord hcell).imp_right .inr

/-- A ranking by success names keys of the log. -/
theorem tabulates_ratioTable
    {κ δ : Type}
    {le : κ → κ → Bool}
    {key : Event → κ}
    {otherLe : δ → δ → Bool}
    {other : Event → δ}
    {now : Int}
    {events : List Event}
    {text : κ → String}
    (hstored : ∀ e ∈ events, IsStored s (text (key e)))
    (keyHeader otherHeader : String) :
    ∃ t,
      ratioTable keyHeader otherHeader text (ratioRows le key otherLe other now config events) = t.render ∧
      Tabulates s cache ["success_ratio", "session_count", "auth_count", keyHeader, otherHeader, "period"] t := by
  refine ⟨_, rfl, tabulates_map _ (fun _ _ => rfl) fun r hr => ?_⟩
  obtain ⟨e, he, hkey⟩ := exists_event_of_mem_ratioRows hr
  simp [← hkey, hstored e he]

theorem eq_some_of_plain
    {α : Type}
    {found : Option α}
    {missing : Store.Fault}
    {a : α}
    (h : Fault.plain (found.elim (.error missing) .ok) = .ok a) :
    found = some a := by
  cases found with
  | none => cases h
  | some b =>
      cases h
      rfl

/-- A report without annotations exhibits what it makes of the log. -/
theorem exhibits_ofReport
    {report : Session → List Event → Except Fault (List String)}
    {headers : List String}
    (h : Sketch.ofReport (onEvents report) s = .ok sketches)
    (hreport : ∀ events blocks, s.tables.events = some events → report s.fixView events = .ok blocks →
      Exhibits s cache headers blocks) :
    Exhibits s (Sketch.fillAll sketches cache).2 headers (Sketch.fillAll sketches cache).1 := by
  simp only [Sketch.ofReport, onEvents, Session.read, Store.Tables.getEvents] at h
  cases hlog : s.tables.events with
  | none =>
      rw [hlog] at h
      cases h
  | some events =>
      simp only [hlog, Option.elim_some] at h
      cases hblocks : report s.fixView events with
      | error f =>
          rw [hblocks] at h
          cases h
      | ok blocks =>
          rw [hblocks] at h
          cases h
          rw [Sketch.fillAll_texts]
          exact hreport events blocks hlog hblocks

theorem exhibits_topSources
    (h : Part.topSources.sketch config s loaded = .ok sketches) :
    Exhibits s (Sketch.fillAll sketches cache).2 Part.topSources.headers (Sketch.fillAll sketches cache).1 := by
  obtain ⟨events, hlog, h⟩ := exists_of_bind_eq_ok h
  obtain ⟨_, -, h⟩ := exists_of_bind_eq_ok h
  split at h
  · cases h
    exact .inl rfl
  · cases h
    refine exhibits_annotatedTable (List.forall_mem_map.mpr fun _ _ => rfl) ?_ cache
    refine List.forall_mem_map.mpr fun r hr => ?_
    obtain ⟨e, he, hkey⟩ := exists_key_of_mem_volumeRows hr
    have hsource : IsStored s r.key.toText := hkey ▸ .source (eq_some_of_plain hlog) he
    simp [volumeCells, hsource]

theorem exhibits_topUids
    (h : Part.topUids.sketch config s loaded = .ok sketches) :
    Exhibits s (Sketch.fillAll sketches cache).2 Part.topUids.headers (Sketch.fillAll sketches cache).1 := by
  refine exhibits_ofReport h fun events blocks _ hreport => ?_
  obtain ⟨keys, -, hreport⟩ := exists_of_bind_eq_ok hreport
  dsimp only at hreport
  split at hreport
  · cases hreport
    exact .inl rfl
  · cases hreport
    refine .inr (.inr ⟨_, [], rfl, tabulates_map _ (fun _ _ => rfl) ?_⟩)
    rintro ⟨key, r⟩ -
    simp [volumeCells]

theorem exhibits_sourcesBySuccess
    (h : Part.sourcesBySuccess.sketch config s loaded = .ok sketches) :
    Exhibits s (Sketch.fillAll sketches cache).2 Part.sourcesBySuccess.headers
      (Sketch.fillAll sketches cache).1 := by
  refine exhibits_ofReport h fun events blocks hlog hreport => ?_
  obtain ⟨_, -, hreport⟩ := exists_of_bind_eq_ok hreport
  obtain ⟨lists, -, hreport⟩ := exists_of_bind_eq_ok hreport
  split at hreport
  · cases hreport
    exact .inl rfl
  · cases hreport
    have hstored : ∀ e ∈ events, IsStored s e.source.toText := fun e he => .source hlog he
    obtain ⟨t, ht, hshows⟩ := tabulates_ratioTable hstored "src_ipaddr" "unique_uids"
    exact .inr (.inr ⟨t, lists, congrArg (· :: lists) ht, hshows⟩)

theorem exhibits_uidsBySuccess
    (h : Part.uidsBySuccess.sketch config s loaded = .ok sketches) :
    Exhibits s (Sketch.fillAll sketches cache).2 Part.uidsBySuccess.headers
      (Sketch.fillAll sketches cache).1 := by
  refine exhibits_ofReport h fun events blocks hlog hreport => ?_
  obtain ⟨_, -, hreport⟩ := exists_of_bind_eq_ok hreport
  obtain ⟨lists, -, hreport⟩ := exists_of_bind_eq_ok hreport
  split at hreport
  · cases hreport
    exact .inl rfl
  · cases hreport
    have hstored : ∀ e ∈ events, IsStored s e.uid.toText := fun e he => .uid hlog he
    obtain ⟨t, ht, hshows⟩ := tabulates_ratioTable hstored "uid" "unique_ips"
    exact .inr (.inr ⟨t, lists, congrArg (· :: lists) ht, hshows⟩)

theorem exhibits_openForeignSessions
    (h : Part.openForeignSessions.sketch config s loaded = .ok sketches) :
    Exhibits s (Sketch.fillAll sketches cache).2 Part.openForeignSessions.headers
      (Sketch.fillAll sketches cache).1 := by
  obtain ⟨events, hlog, h⟩ := exists_of_bind_eq_ok h
  obtain ⟨uids, -, h⟩ := exists_of_bind_eq_ok h
  split at h
  · cases h
    exact .inl rfl
  · cases h
    refine exhibits_annotatedTable (List.forall_mem_map.mpr fun _ _ => rfl) ?_ cache
    refine List.forall_mem_map.mpr ?_
    rintro ⟨uid, r⟩ hmem
    obtain ⟨e, he, hsource⟩ := exists_source_of_mem_openRows (List.of_mem_zip hmem).2
    have hstored : IsStored s r.source.toText := hsource ▸ .source (eq_some_of_plain hlog) he
    simp [hstored]

theorem exhibits_foreignByAccount
    (h : Part.foreignByAccount.sketch config s loaded = .ok sketches) :
    Exhibits s (Sketch.fillAll sketches cache).2 Part.foreignByAccount.headers
      (Sketch.fillAll sketches cache).1 := by
  simp only [Part.sketch] at h
  split at h
  · cases h
    exact .inr (.inl rfl)
  · obtain ⟨events, -, h⟩ := exists_of_bind_eq_ok h
    obtain ⟨reference, -, h⟩ := exists_of_bind_eq_ok h
    obtain ⟨_, -, h⟩ := exists_of_bind_eq_ok h
    split at h
    · cases h
      exact .inl rfl
    · cases h
      exact .inr (.inr ⟨_, _, rfl, tabulates_map _ (fun _ _ => rfl) fun r _ => by simp⟩)

theorem exhibits_firewallBlocks
    (h : Part.firewallBlocks.sketch config s loaded = .ok sketches) :
    Exhibits s (Sketch.fillAll sketches cache).2 Part.firewallBlocks.headers
      (Sketch.fillAll sketches cache).1 := by
  obtain ⟨blocks, hblocks, h⟩ := exists_of_bind_eq_ok h
  split at h
  · cases h
  · obtain ⟨_, -, h⟩ := exists_of_bind_eq_ok h
    split at h
    · cases h
      exact .inl rfl
    · cases h
      refine exhibits_annotatedTable (List.forall_mem_map.mpr fun _ _ => rfl) ?_ cache
      refine List.forall_mem_map.mpr fun entity hentity => ?_
      obtain ⟨block, hblock, rfl⟩ := List.mem_filterMap.mp (List.mem_mergeSort.mp hentity)
      exact List.forall_mem_singleton.mpr (.inr (.entity (eq_some_of_plain hblocks) hblock))

theorem exhibits_countrySummary
    (h : Part.countrySummary.sketch config s loaded = .ok sketches) :
    Exhibits s (Sketch.fillAll sketches cache).2 Part.countrySummary.headers
      (Sketch.fillAll sketches cache).1 := by
  cases h
  simp only [Sketch.fillAll, Sketch.fill, Sketch.countriesText]
  split
  · exact .inl rfl
  · refine .inr (.inr ⟨_, [], rfl, tabulates_map _ (fun _ _ => rfl) ?_⟩)
    rintro ⟨code, count⟩ hmem
    obtain ⟨country, hcountry, heq⟩ := List.mem_map.mp hmem
    cases heq
    simp [IsFound.country hcountry]

/-- Every part that succeeds exhibits its table. -/
theorem exhibits_report
    {part : Part}
    {c : Context σ}
    {blocks : List String}
    (h : (part.report config (s, c)).1 = .ok blocks) :
    Exhibits s (part.report config (s, c)).2.2.cache part.headers blocks := by
  have hending := ending_report config part s c
  cases hsketch : part.sketch config s c.referenceLoaded with
  | error f =>
      rw [hsketch] at hending
      cases (congrArg Prod.fst hending).symm.trans h
  | ok sketches =>
      rw [hsketch] at hending
      have hblocks := (congrArg Prod.fst hending).symm.trans h
      have hcache := congrArg (fun ended => ended.2.cache) hending
      cases hblocks
      refine hcache ▸ ?_
      cases part with
      | topSources => exact exhibits_topSources hsketch
      | topUids => exact exhibits_topUids hsketch
      | sourcesBySuccess => exact exhibits_sourcesBySuccess hsketch
      | uidsBySuccess => exact exhibits_uidsBySuccess hsketch
      | openForeignSessions => exact exhibits_openForeignSessions hsketch
      | foreignByAccount => exact exhibits_foreignByAccount hsketch
      | firewallBlocks => exact exhibits_firewallBlocks hsketch
      | countrySummary => exact exhibits_countrySummary hsketch

end Parts

/-! ### Reading the tables -/

/-- A table is read back as its rows if and only if the texts from outside in it are plain. -/
theorem Tabulates.isMarkdown_iff
    {s : Session}
    {cache : Cache σ}
    {headers : List String}
    {t : Table}
    (h : Tabulates s cache headers t)
    (hne : headers ≠ [])
    (hheaders : ∀ header ∈ headers, IsPlain header) :
    t.IsMarkdown ↔
      ∀ row ∈ t.rows, ∀ cell ∈ row, IsStored s cell ∨ IsFound cache cell → IsPlain cell := by
  obtain ⟨rfl, hwidth, hcells⟩ := h
  rw [Table.isMarkdown_iff t hne hwidth, List.forall_mem_cons, and_iff_right hheaders]
  constructor
  · exact fun hplain row hrow cell hcell _ => hplain row hrow cell hcell
  · exact fun hplain row hrow cell hcell => (hcells row hrow cell hcell).elim id (hplain row hrow cell hcell)

/-- The table of days holds no texts from outside. -/
theorem isMarkdown_of_dailyTable
    {now : Int}
    {events : List Event}
    {blocks : List String}
    (h : dailyTable now events = .ok blocks) :
    ∃ t : Table, blocks = [t.render] ∧ t.headers = ["log_day", "day_of_week", "event_count"] ∧ t.IsMarkdown := by
  unfold dailyTable at h
  dsimp only at h
  split at h
  · cases h
  · cases h
    refine ⟨_, rfl, rfl, (Table.isMarkdown_iff _ (List.cons_ne_nil _ _) ?_).mpr ?_⟩
    · exact List.forall_mem_map.mpr fun _ _ => rfl
    have hheaders : ∀ header ∈ ["log_day", "day_of_week", "event_count"], Inert header.toList := by decide
    refine List.forall_mem_cons.mpr ⟨fun header hheader => isPlain_of_inert (hheaders header hheader), ?_⟩
    refine List.forall_mem_map.mpr ?_
    rintro ⟨day, count⟩ hmem
    obtain ⟨group, hgroup, heq⟩ := List.mem_map.mp hmem
    cases heq
    obtain ⟨found, hfound, hkey⟩ := Store.exists_key_of_mem_groups hgroup
    obtain ⟨kept, hkept, hday⟩ := List.mem_filterMap.mp (Store.mem_of_mem_groups hgroup hfound)
    obtain ⟨e, -, he⟩ := List.mem_map.mp hkept
    have htext : group.1.1 = group.1.2.text := by
      rw [← hkey]
      exact text_of_eventDay (he.trans hday)
    simp [dayRow, htext]

/-- **When the tables of the reports are read back.**  Whatever stands in the log and among the blocks, and
whatever source is asked, a part that succeeds has nothing to show or shows a table with its headers.  All rows
are as long as these, and each cell is plain or a text from outside: stored, or found by lookups.  The table is
read back as its rows, one from each line and cut at the bars, if and only if its texts from outside are plain.
The table of days is always read back. -/
theorem tables_read_back_iff_plain
    (config : Configuration)
    (s : Session)
    (c : Context σ) :
    (∀ (part : Part) (blocks : List String),
      (part.report config (s, c)).1 = .ok blocks →
      let cache := (part.report config (s, c)).2.2.cache
      blocks = [noMatchingData] ∨ blocks = [referenceUnavailable] ∨
        ∃ (t : Table) (following : List String),
          blocks = t.render :: following ∧
          t.headers = part.headers ∧
          (∀ row ∈ t.rows, row.length = t.headers.length) ∧
          (∀ row ∈ t.rows, ∀ cell ∈ row, IsPlain cell ∨ IsStored s cell ∨ IsFound cache cell) ∧
          (t.IsMarkdown ↔
            ∀ row ∈ t.rows, ∀ cell ∈ row, IsStored s cell ∨ IsFound cache cell → IsPlain cell)) ∧
    ∀ (now : Int) (events : List Event) (blocks : List String),
      dailyTable now events = .ok blocks →
      ∃ t : Table,
        blocks = [t.render] ∧ t.headers = ["log_day", "day_of_week", "event_count"] ∧ t.IsMarkdown := by
  refine ⟨fun part blocks h => ?_, fun now events blocks h => isMarkdown_of_dailyTable h⟩
  refine (exhibits_report h).imp_right (Or.imp_right ?_)
  rintro ⟨t, following, rfl, ht⟩
  have hne : part.headers ≠ [] := by cases part <;> exact List.cons_ne_nil _ _
  have hwidth : ∀ row ∈ t.rows, row.length = t.headers.length := by
    rw [ht.headers_eq]
    exact ht.width
  exact ⟨t, following, rfl, ht.headers_eq, hwidth, ht.cells,
    ht.isMarkdown_iff hne fun _ => Part.isPlain_of_mem_headers⟩

/-- An empty log and one blocked address. -/
def blockedHost : Session :=
  { committed := ⟨some [], some [some "198.51.100.7"]⟩
    now := 1710892800 }

/-- A log of one event. -/
def oneLogin : List Event :=
  [⟨"203.0.113.5", .auth, .integer 1001, "2024-03-18 09:00:00"⟩]

/-- A source that knows one network, under a name of its owner's choice. -/
def namingSource (name : String) : Context Unit :=
  { cache := Cache.fresh (fun _ _ => (.record ⟨"198.51.100.0/24", "US", name⟩, ())) () }

/-- The table of the blocked address, annotated under a name. -/
def blockedHostTable (name : String) : Table :=
  { headers := Part.firewallBlocks.headers
    rows := [["198.51.100.7", "198.51.100.0/24", "US", name]]
    alignments := ("ip_entity", .left) :: orgColumns }

/-- The name is shown as it is found. -/
theorem report_blockedHost
    (name : String) :
    let ended := Part.firewallBlocks.report {} (blockedHost, namingSource name)
    ended.1 = .ok [(blockedHostTable name).render] ∧
    ended.2.2.cache.records = [(.v4 0xc6336407, ⟨"198.51.100.0/24", "US", name⟩)] ∧
    ended.2.2.cache.countries = ["US"] := by
  have haddress : Address.ofLogged? "198.51.100.7" = some (.v4 0xc6336407) := by decide
  have hsketch : Part.firewallBlocks.sketch {} blockedHost (namingSource name).referenceLoaded =
      .ok [.table [("ip_entity", .left)] [("198.51.100.7", ["198.51.100.7"])]] := by
    cbv
  have hending := ending_report {} .firewallBlocks blockedHost (namingSource name)
  rw [hsketch] at hending
  simp only [Sketch.complete, Sketch.fillAll, Sketch.fill, annotatedTable, List.map_cons, List.map_nil,
    Cache.annotateAll, Cache.annotate_of_address haddress] at hending
  exact ⟨congrArg Prod.fst hending, congrArg (fun ended => ended.2.cache.records) hending,
    congrArg (fun ended => ended.2.cache.countries) hending⟩

/-- With a plain name the texts from outside are plain. -/
theorem isPlain_blockedHost
    {cell : String}
    (h : IsStored blockedHost cell ∨
      IsFound (Part.firewallBlocks.report {} (blockedHost, namingSource "EXAMPLE-NET")).2.2.cache cell) :
    IsPlain cell := by
  obtain ⟨-, hrecords, hcountries⟩ := report_blockedHost "EXAMPLE-NET"
  have hinert : ∀ text ∈ ["198.51.100.7", "198.51.100.0/24", "US", "EXAMPLE-NET"], Inert text.toList := by
    decide
  refine isPlain_of_inert (hinert cell ?_)
  rcases h with hstored | hfound
  · cases hstored with
    | source hlog he =>
        cases hlog
        cases he
    | uid hlog he =>
        cases hlog
        cases he
    | entity hblocks hcell =>
        cases hblocks
        cases List.mem_singleton.mp hcell
        exact List.mem_cons_self
  · cases hfound with
    | cell hr htext =>
        rw [hrecords] at hr
        cases List.mem_singleton.mp hr
        exact List.mem_cons_of_mem _ htext
    | country hcode =>
        rw [hcountries] at hcode
        rw [List.mem_singleton.mp hcode]
        decide

/-- With a plain name the table of the blocked address is read back, and so is the table of a day. -/
theorem blockedHost_reads_back :
    (∃ t : Table,
      (Part.firewallBlocks.report {} (blockedHost, namingSource "EXAMPLE-NET")).1 = .ok [t.render] ∧
      t.headers = Part.firewallBlocks.headers ∧ t.IsMarkdown) ∧
    ∃ t : Table, dailyTable 1710892800 oneLogin = .ok [t.render] ∧ t.IsMarkdown := by
  obtain ⟨hparts, hdays⟩ := tables_read_back_iff_plain {} blockedHost (namingSource "EXAMPLE-NET")
  constructor
  · have hreport := (report_blockedHost "EXAMPLE-NET").1
    rcases hparts .firewallBlocks _ hreport with hnone | hskipped | ⟨t, following, ht, hheaders, -, -, hiff⟩
    · exact absurd (List.head_eq_of_cons_eq hnone) (Sketch.render_ne_noMatchingData _)
    · have hhead := Sketch.head?_render (blockedHostTable "EXAMPLE-NET")
      rw [List.head_eq_of_cons_eq hskipped] at hhead
      exact absurd hhead (by decide)
    · rw [List.head_eq_of_cons_eq ht] at hreport
      exact ⟨t, hreport, hheaders, hiff.mpr fun _ _ _ _ => isPlain_blockedHost⟩
  · obtain ⟨blocks, hblocks⟩ : ∃ blocks, dailyTable 1710892800 oneLogin = .ok blocks := by
      have hday : (oneLogin.map (eventDay 1710892800)).any Option.isNone = false := by decide +kernel
      simp only [dailyTable, hday, Bool.false_eq_true, if_false, Except.ok.injEq, exists_eq']
    obtain ⟨t, rfl, -, ht⟩ := hdays _ _ _ hblocks
    exact ⟨t, hblocks, ht⟩

/-- With a bar in the name the line of the address is cut into one part more than those of the headers, and with a
line feed there is one line more than there are rows. -/
theorem barred_name_cuts_line :
    (∃ t : Table,
      (Part.firewallBlocks.report {} (blockedHost, namingSource "A|B")).1 = .ok [t.render] ∧
      t.headers = Part.firewallBlocks.headers ∧
      t.rows = [["198.51.100.7", "198.51.100.0/24", "US", "A|B"]] ∧
      (linesOf t.render).map (fun line => (partsOf false line).length) = [6, 6, 7] ∧
      ¬ t.IsMarkdown) ∧
    ∃ t : Table,
      (Part.firewallBlocks.report {} (blockedHost, namingSource "A\nB")).1 = .ok [t.render] ∧
      t.headers = Part.firewallBlocks.headers ∧
      t.rows = [["198.51.100.7", "198.51.100.0/24", "US", "A\nB"]] ∧
      (linesOf t.render).map (fun line => (partsOf false line).length) = [6, 6, 6, 6] ∧
      ¬ t.IsMarkdown := by
  have hne (name : String) : (blockedHostTable name).headers ≠ [] := List.cons_ne_nil _ _
  have hwidth (name : String) :
      ∀ row ∈ (blockedHostTable name).rows, row.length = (blockedHostTable name).headers.length :=
    List.forall_mem_singleton.mpr rfl
  have hname (name : String) (hmarkdown : (blockedHostTable name).IsMarkdown) : IsPlain name :=
    (Table.isMarkdown_iff _ (hne name) (hwidth name)).mp hmarkdown _ (List.mem_cons_of_mem _ List.mem_cons_self)
      name (by simp)
  constructor
  · refine ⟨_, (report_blockedHost "A|B").1, rfl, rfl, ?_, fun hmarkdown => ?_⟩
    · rw [linesOf, Table.render, String.toList_ofList]
      decide +kernel
    · exact absurd (hname _ hmarkdown).noBar (by decide)
  · refine ⟨_, (report_blockedHost "A\nB").1, rfl, rfl, ?_, fun hmarkdown => ?_⟩
    · rw [linesOf, Table.render, String.toList_ofList]
      decide +kernel
    · exact absurd ((hname _ hmarkdown).noEnd '\n' (by decide)) (by decide)

end Task
end AccessAudit
