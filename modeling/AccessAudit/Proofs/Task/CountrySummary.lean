import AccessAudit.Proofs.Enrichment.Recollection
import AccessAudit.Proofs.Task.KeyFacts
import AccessAudit.Proofs.Task.Repetition

/-!
# What the summary of countries counts

Four parts of the top counts annotate texts.  Which texts these are is told by the rows that a part lists;
a part that fails, or has nothing to list, annotates none.  The summary of countries comes after all of
them.  Over a source that is a function of the address it counts the addresses that these texts denote,
each once, by the country of their records.
-/

namespace AccessAudit
namespace Task

open Store (Cell Session Event Uid)

variable {σ : Type}

/-! ### The texts that are annotated -/

/-- Texts that are annotated if rows could be read, and otherwise not. -/
def textsIfRead {α : Type} (read : Except Store.Fault α) (texts : List String) : List String :=
  match read with
  | .ok _ => texts
  | .error _ => []

@[simp] theorem textsIfRead_nil
    {α : Type}
    (read : Except Store.Fault α) :
    textsIfRead read [] = [] := by
  cases read <;> rfl

/-- The texts that a part annotates for what is seen of a session, in order. -/
def annotatedTexts (config : Configuration) (s : Session) (loaded : Bool) (part : Part) : List String :=
  let events := s.tables.events.getD []
  match part with
  | .topSources =>
      let rows := volumeRows Store.textLe (·.source) Uid.le (·.uid) s.now config.topN events
      textsIfRead (onlyTexts "src_ipaddr" (rows.map (·.key))) (rows.map (·.key.toText))
  | .openForeignSessions =>
      textsIfRead (openUids s.localNetworks config.topN events)
        ((openRows s.localNetworks config.topN events).map (·.source.toText))
  | .foreignByAccount =>
      let reference := s.reference.getD []
      let asked := (accountOpenings reference events).map (·.2.source)
      if loaded then
        textsIfRead (onlyAddresses config.topN asked)
          ((accountRows s.localNetworks reference config.topN events).flatMap fun r =>
            (foreignSourcesOf s.localNetworks r.uid events).map Cell.toText)
      else []
  | .firewallBlocks =>
      let blocks := s.tables.blocks.getD []
      let entities := (blocks.filterMap id).mergeSort Store.textLe
      if blocks.any Option.isNone then []
      else textsIfRead (onlyTexts "ip_entity" entities) (entities.map Cell.toText)
  | .topUids | .sourcesBySuccess | .uidsBySuccess | .countrySummary => []

/-- Lines without annotations annotate nothing. -/
theorem texts_map_text
    (lines : List String) :
    (lines.map Sketch.text).flatMap Sketch.texts = [] := by
  simp [List.flatMap_map, Sketch.texts]

/-- The texts that are annotated in a part's section. -/
def sectionTexts (part : Part) (sketched : Except Fault (List Sketch)) : List String :=
  (part.sketchLines sketched).flatMap Sketch.texts

@[simp] theorem sectionTexts_error
    (part : Part)
    (f : Fault) :
    sectionTexts part (.error f) = [] :=
  texts_map_text _

@[simp] theorem sectionTexts_ok
    (part : Part)
    (sketches : List Sketch) :
    sectionTexts part (.ok sketches) = sketches.flatMap Sketch.texts :=
  rfl

theorem sectionTexts_ofReport
    (part : Part)
    (report : Reporting Unit)
    (s : Session) :
    sectionTexts part (Sketch.ofReport report s) = [] := by
  unfold Sketch.ofReport
  cases (report (s, Context.idle)).1 with
  | error f => exact sectionTexts_error part f
  | ok blocks => exact texts_map_text blocks

/-! Without events nothing is listed. -/

theorem volumeRows_nil
    {κ δ : Type}
    (le : κ → κ → Bool)
    (key : Event → κ)
    (otherLe : δ → δ → Bool)
    (other : Event → δ)
    (now : Int)
    (topN : Nat) :
    volumeRows le key otherLe other now topN [] = [] := by
  simp [volumeRows, Store.groups, Store.rankBy, Store.limit]

theorem openRows_nil
    (networks : List Block)
    (topN : Nat) :
    openRows networks topN [] = [] := by
  simp [openRows, Store.groups, Store.rankBy, Store.limit]

/-- Without openings of sessions no accounts are listed. -/
theorem accountRows_of_nil
    {reference : List Int}
    {events : List Event}
    (h : accountOpenings reference events = [])
    (networks : List Block)
    (topN : Nat) :
    accountRows networks reference topN events = [] := by
  simp [accountRows, h, Store.groups, Store.rankBy, Store.limit]

theorem accountOpenings_of_no_reference
    (events : List Event) :
    accountOpenings [] events = [] := by
  refine List.filterMap_eq_nil_iff.mpr fun e _ => ?_
  cases e.uid <;> simp

section Texts

variable (config : Configuration) (s : Session) (loaded : Bool)

theorem sectionTexts_topSources :
    sectionTexts .topSources (Part.topSources.sketch config s loaded) =
      annotatedTexts config s loaded .topSources := by
  simp only [Part.sketch, annotatedTexts, Store.Tables.getEvents]
  cases s.tables.events with
  | none => simp [Fault.plain, bind, Except.bind, volumeRows_nil]
  | some events =>
      simp only [Option.elim, Fault.plain, bind, Except.bind, Option.getD]
      cases onlyTexts "src_ipaddr" ((volumeRows Store.textLe (·.source) Uid.le (·.uid) s.now
          config.topN events).map (·.key)) with
      | error e => rfl
      | ok _ =>
          dsimp only [textsIfRead]
          split
          · next hnone =>
              rw [List.isEmpty_iff.mp hnone]
              rfl
          · simp [Sketch.texts, Function.comp_def]

theorem sectionTexts_openForeignSessions :
    sectionTexts .openForeignSessions (Part.openForeignSessions.sketch config s loaded) =
      annotatedTexts config s loaded .openForeignSessions := by
  simp only [Part.sketch, annotatedTexts, Store.Tables.getEvents]
  cases s.tables.events with
  | none => simp [Fault.plain, bind, Except.bind, openRows_nil]
  | some events =>
      simp only [Option.elim, Fault.plain, bind, Except.bind, Option.getD]
      cases huids : openUids s.localNetworks config.topN events with
      | error e => rfl
      | ok uids =>
          obtain ⟨_, -, huids⟩ := exists_of_bind_eq_ok huids
          dsimp only [textsIfRead]
          split
          · next hnone =>
              rw [List.isEmpty_iff.mp hnone]
              rfl
          · have hsources := map_zip_integers (mapM_integerUid_iff.mp huids) fun _ r => r.source.toText
            simpa [Sketch.texts, Function.comp_def] using hsources

theorem sectionTexts_foreignByAccount :
    sectionTexts .foreignByAccount (Part.foreignByAccount.sketch config s loaded) =
      annotatedTexts config s loaded .foreignByAccount := by
  simp only [Part.sketch, annotatedTexts, Store.Tables.getEvents, Session.getReference]
  cases loaded with
  | false => rfl
  | true =>
      simp only [Bool.not_true, Bool.false_eq_true, if_false, if_true]
      cases s.tables.events with
      | none => simp [Fault.plain, bind, Except.bind, accountRows_of_nil, accountOpenings]
      | some events =>
          cases s.reference with
          | none =>
              simp [Fault.plain, bind, Except.bind,
                accountRows_of_nil (accountOpenings_of_no_reference events)]
          | some reference =>
              simp only [Option.elim, Fault.plain, bind, Except.bind, Option.getD]
              cases onlyAddresses config.topN
                  ((accountOpenings reference events).map (·.2.source)) with
              | error e => rfl
              | ok _ =>
                  dsimp only [textsIfRead]
                  split
                  · next hnone =>
                      rw [List.isEmpty_iff.mp hnone]
                      rfl
                  · simp [Sketch.texts, List.flatMap_map]

theorem sectionTexts_firewallBlocks :
    sectionTexts .firewallBlocks (Part.firewallBlocks.sketch config s loaded) =
      annotatedTexts config s loaded .firewallBlocks := by
  simp only [Part.sketch, annotatedTexts, Store.Tables.getEntities]
  cases s.tables.blocks with
  | none => simp [Fault.plain, bind, Except.bind]
  | some blocks =>
      simp only [Option.elim, Fault.plain, bind, Except.bind, Option.getD]
      split
      · rfl
      · cases onlyTexts "ip_entity" ((blocks.filterMap id).mergeSort Store.textLe) with
        | error e => rfl
        | ok _ =>
            dsimp only [textsIfRead]
            split
            · next hnone =>
                rw [List.isEmpty_iff.mp hnone]
                rfl
            · simp [Sketch.texts, Function.comp_def]

/-- The texts that are annotated in a part's section are those that its rows tell. -/
theorem sectionTexts_sketch
    (part : Part) :
    sectionTexts part (part.sketch config s loaded) = annotatedTexts config s loaded part := by
  cases part with
  | topSources => exact sectionTexts_topSources config s loaded
  | topUids => exact sectionTexts_ofReport _ _ s
  | sourcesBySuccess => exact sectionTexts_ofReport _ _ s
  | uidsBySuccess => exact sectionTexts_ofReport _ _ s
  | openForeignSessions => exact sectionTexts_openForeignSessions config s loaded
  | foreignByAccount => exact sectionTexts_foreignByAccount config s loaded
  | firewallBlocks => exact sectionTexts_firewallBlocks config s loaded
  | countrySummary => rfl

/-- With an empty log nothing is annotated by a part that is about the log. -/
theorem annotatedTexts_of_no_events
    (hevents : s.tables.events = some [])
    {part : Part}
    (hpart : part.readsLog = true) :
    annotatedTexts config s loaded part = [] := by
  have hopenings : accountOpenings (s.reference.getD []) [] = [] := rfl
  cases part with
  | topSources => simp [annotatedTexts, hevents, volumeRows_nil]
  | openForeignSessions => simp [annotatedTexts, hevents, openRows_nil]
  | foreignByAccount => simp [annotatedTexts, hevents, accountRows_of_nil hopenings]
  | topUids => rfl
  | sourcesBySuccess => rfl
  | uidsBySuccess => rfl
  | firewallBlocks => cases hpart
  | countrySummary => cases hpart

end Texts

/-! ### What is left in the cache -/

/-- A part leaves the cache as if its texts were annotated one after the other. -/
theorem cache_report
    (config : Configuration)
    (part : Part)
    (s : Session)
    (c : Context σ) :
    (part.report config (s, c)).2.2.cache =
      (c.cache.annotateAll (annotatedTexts config s c.referenceLoaded part)).2 := by
  have hcontext := congrArg (fun ended => ended.2.cache) (ending_report config part s c)
  simp only [ending] at hcontext
  rw [hcontext, ← sectionTexts_sketch]
  cases part.sketch config s c.referenceLoaded with
  | error f =>
      rw [sectionTexts_error]
      rfl
  | ok sketches =>
      rw [sectionTexts_ok, ← Sketch.cache_fillAll]
      rfl

/-- What there can be to show: nothing, all parts, or, with an empty log, the blocks and the countries. -/
theorem shownParts_cases
    {s : Session}
    {parts : List Part}
    (h : shownParts s = .ok parts) :
    parts = [] ∨ parts = Part.all ∨
      (s.tables.events = some [] ∧ parts = [.firewallBlocks, .countrySummary]) := by
  have hcounted : ∀ n, (countEvents s).1 = .ok n →
      ∃ log, s.tables.events = some log ∧ log.length = n := by
    intro n hn
    simp only [countEvents, Session.read, Store.Tables.getEvents] at hn
    cases hevents : s.tables.events with
    | none =>
        rw [hevents] at hn
        cases hn
    | some log =>
        rw [hevents] at hn
        exact ⟨log, rfl, Except.ok.inj hn⟩
  unfold shownParts at h
  split at h
  · cases h
  · next hempty =>
      obtain ⟨log, hlog, hlength⟩ := hcounted 0 hempty
      obtain rfl := List.length_eq_zero_iff.mp hlength
      split at h
      · cases h
      · cases h
        exact .inl rfl
      · cases h
        exact .inr (.inr ⟨hlog, rfl⟩)
  · cases h
    exact .inr (.inl rfl)

/-- The parts that are shown before the summary annotate what all parts annotate. -/
theorem texts_of_shownParts
    {s : Session}
    {parts : List Part}
    (h : shownParts s = .ok (parts ++ [.countrySummary]))
    (config : Configuration)
    (loaded : Bool) :
    parts.flatMap (annotatedTexts config s loaded) =
      Part.all.flatMap (annotatedTexts config s loaded) := by
  have hsummary : annotatedTexts config s loaded .countrySummary = [] := rfl
  have hlast : (parts ++ [Part.countrySummary]).flatMap (annotatedTexts config s loaded) =
      parts.flatMap (annotatedTexts config s loaded) := by
    simp [hsummary]
  rw [← hlast]
  rcases shownParts_cases h with hnone | hall | ⟨hevents, hblocks⟩
  · simp at hnone
  · rw [hall]
  · have hall : Part.all = Part.all.filter Part.readsLog ++ [.firewallBlocks, .countrySummary] := rfl
    have hlog : (Part.all.filter Part.readsLog).flatMap (annotatedTexts config s loaded) = [] :=
      List.flatMap_eq_nil_iff.mpr fun part hpart =>
        annotatedTexts_of_no_events config s loaded hevents (List.mem_filter.mp hpart).2
    rw [hblocks, hall, List.flatMap_append, hlog, List.nil_append]

/-- Parts leave a cache that has asked about the addresses of their texts too. -/
theorem recalls_sectionsOf
    {answer : Address → Answer}
    {asked : Finset Address}
    {s t : Session}
    {c : Context σ}
    (h : Cache.Recalls answer asked c.cache)
    (config : Configuration)
    (parts : List Part)
    (hsight : t.sight = s.sight) :
    Cache.Recalls answer
      (asked ∪ Cache.addresses (parts.flatMap (annotatedTexts config s c.referenceLoaded)))
      (sectionsOf config parts (t, c)).2.2.cache := by
  obtain ⟨-, hcache, -⟩ := sectionsOf_eq_fillAll config parts hsight c
  have htexts : (partsSketch config s c.referenceLoaded parts).flatMap Sketch.texts =
      parts.flatMap (annotatedTexts config s c.referenceLoaded) := by
    rw [partsSketch, List.flatMap_assoc]
    exact congrArg parts.flatMap (funext (sectionTexts_sketch config s c.referenceLoaded))
  rw [hcache, Sketch.cache_fillAll, htexts]
  exact h.annotateAll _

/-! ### The summary -/

/-- The summary of countries shows what the parts before it have left in the cache. -/
theorem sectionsOf_summary
    (config : Configuration)
    (parts : List Part)
    (s : Session)
    (c : Context σ) :
    (sectionsOf config (parts ++ [.countrySummary]) (s, c)).1 =
      (sectionsOf config parts (s, c)).1 ++
        [Part.countrySummary.heading,
          Sketch.countriesText (sectionsOf config parts (s, c)).2.2.cache.countryCounts] := by
  obtain ⟨hlines, -⟩ := sectionsOf_eq_fillAll config (parts ++ [.countrySummary]) rfl (s := s) c
  obtain ⟨hbefore, hcache, -⟩ := sectionsOf_eq_fillAll config parts rfl (s := s) c
  rw [hlines, partsSketch, List.flatMap_append, ← partsSketch, Sketch.fillAll_append, ← hbefore,
    ← hcache]
  rfl

theorem countriesText_eq_noMatchingData_iff
    (counts : List (String × Nat)) :
    Sketch.countriesText counts = "No matching data." ↔ counts = [] := by
  unfold Sketch.countriesText
  by_cases hempty : counts.isEmpty = true
  · simp [List.isEmpty_iff.mp hempty]
  · rw [if_neg hempty]
    exact iff_of_false (Sketch.render_ne_noMatchingData _) fun hnil => hempty (List.isEmpty_iff.mpr hnil)

/-- Over a source that is a function of the address, the summary of countries is the last of the sections.
It lists, in ascending order, the country codes that the source gives to addresses that the parts before it
have annotated, each with the number of these addresses. -/
theorem countrySummary_counts_annotated
    (config : Configuration)
    (s : Session)
    (loaded : Bool)
    (notices : List Notice)
    (answer : Address → Answer)
    (ask : σ → Address → Answer × σ)
    (hask : ∀ state a, (ask state a).1 = answer a)
    (source : σ)
    {sections : List String}
    (hsections : (topCounts config (s, ⟨Cache.fresh ask source, loaded, notices⟩)).1 = .ok sections)
    (hsome : sections ≠ []) :
    let c : Context σ := ⟨Cache.fresh ask source, loaded, notices⟩
    let annotated := Cache.addresses (Part.all.flatMap (annotatedTexts config s loaded))
    (∀ (part : Part) (t : Session) (d : Context σ),
      t.sight = s.sight →
      d.referenceLoaded = loaded →
      (part.report config (t, d)).2.2.cache =
        (d.cache.annotateAll (annotatedTexts config s loaded part)).2) ∧
    ∃ parts counts,
      shownParts s = .ok (parts ++ [.countrySummary]) ∧
      sections =
        (sectionsOf config parts (s.fixView, c)).1 ++
          [Part.countrySummary.heading, Sketch.countriesText counts] ∧
      (counts.map Prod.fst).Pairwise (· < ·) ∧
      (∀ code n,
        (code, n) ∈ counts ↔
          code ≠ "" ∧ 0 < n ∧ n = (Cache.carriers answer annotated code).card) ∧
      (Sketch.countriesText counts = "No matching data." ↔
        ∀ code, code ≠ "" → Cache.carriers answer annotated code = ∅) := by
  intro c annotated
  refine ⟨?_, ?_⟩
  · -- a part sees the same of every session with this sight, so its sketch is the same
    rintro part t d hsight rfl
    rw [cache_report, ← sectionTexts_sketch, sketch_of_sight hsight, sectionTexts_sketch]
  have hcounts := topCounts_of_shownParts config s c
  cases hparts : shownParts s with
  | error f =>
      simp only [hparts] at hcounts
      rw [hcounts] at hsections
      cases hsections
  | ok shown =>
      simp only [hparts] at hcounts
      rw [hcounts] at hsections
      obtain rfl := Except.ok.inj hsections
      rcases shownParts_ending hparts with rfl | ⟨parts, rfl, -⟩
      · exact absurd rfl hsome
      -- the parts before the summary have asked about all that is annotated, and about nothing else
      have hrecalls := recalls_sectionsOf (c := c) (Cache.recalls_fresh hask source) config parts
        s.sight_fixView
      rw [texts_of_shownParts hparts, Finset.empty_union] at hrecalls
      refine ⟨parts, _, rfl, sectionsOf_summary config parts s.fixView c,
        hrecalls.ascending_countryCounts, hrecalls.mem_countryCounts, ?_⟩
      rw [countriesText_eq_noMatchingData_iff, List.eq_nil_iff_forall_not_mem]
      constructor
      · intro hnone code hcode
        refine Finset.not_nonempty_iff_eq_empty.mp fun hcarried => ?_
        have hpos := Finset.card_pos.mpr hcarried
        exact hnone (code, _) ((hrecalls.mem_countryCounts code _).mpr ⟨hcode, hpos, rfl⟩)
      · rintro hnone ⟨code, n⟩ hmem
        obtain ⟨hcode, hpos, rfl⟩ := (hrecalls.mem_countryCounts code n).mp hmem
        rw [hnone code hcode, Finset.card_empty] at hpos
        exact absurd hpos (lt_irrefl 0)

/-- A session of an account from an address that is blocked in another spelling, and a block of one more
address.  The reference set has the account. -/
def blockedLog : Session :=
  { committed :=
      ⟨some [⟨"203.0.113.5", .openSession, .integer 1001, "2024-03-18 09:00:00"⟩],
        some [some " 203.0.113.5/32", some "198.51.100.7", some "2001:db8:0:0::1"]⟩
    reference := some [1001]
    now := 1710892800 }

/-- A source that knows two networks and counts how often it is asked. -/
def countingSource : Nat → Address → Answer × Nat :=
  fun calls a =>
    (match a with
      | .v4 w =>
          if w = 0xcb007105 then .record ⟨"203.0.113.0/24", "NL", "EXAMPLE-NET"⟩
          else .record ⟨"198.51.100.0/24", "", "ANOTHER-NET"⟩
      | .v6 _ => .failure ["connection refused"], calls + 1)

/-- An address that is mentioned in two spellings and by three parts is counted once; a network without a
country is not counted, and neither is an address that the source fails on. -/
theorem blockedLog_countries :
    let c : Context Nat := ⟨Cache.fresh countingSource 0, true, []⟩
    let annotated := Cache.addresses (Part.all.flatMap (annotatedTexts {} blockedLog true))
    annotated = {.v4 0xcb007105, .v4 0xc6336407, .v6 0x20010db8000000000000000000000001} ∧
    ∃ before counts,
      (topCounts {} (blockedLog, c)).1 =
        .ok (before ++ [Part.countrySummary.heading, Sketch.countriesText counts]) ∧
      ∀ code n, (code, n) ∈ counts ↔ code = "NL" ∧ n = 1 := by
  intro c annotated
  let answer := fun a => (countingSource 0 a).1
  have htexts : Part.all.flatMap (annotatedTexts {} blockedLog true) =
      ["203.0.113.5", "203.0.113.5", " 203.0.113.5/32", "198.51.100.7", "2001:db8:0:0::1"] := by
    cbv
  have hannotated :
      annotated = {.v4 0xcb007105, .v4 0xc6336407, .v6 0x20010db8000000000000000000000001} := by
    simp only [annotated, htexts]
    decide +kernel
  have hparts : shownParts blockedLog = .ok (Part.all.dropLast ++ [.countrySummary]) := rfl
  have hsections := congrArg Prod.fst (topCounts_of_shownParts {} blockedLog c)
  simp only [hparts] at hsections
  have hsome : (sectionsOf {} (Part.all.dropLast ++ [.countrySummary]) (blockedLog.fixView, c)).1 ≠ [] := by
    rw [sectionsOf_summary]
    exact List.append_ne_nil_of_right_ne_nil _ (List.cons_ne_nil _ _)
  obtain ⟨-, parts, counts, -, hlines, -, hcounts, -⟩ :=
    countrySummary_counts_annotated {} blockedLog true [] answer countingSource (fun _ _ => rfl) 0
      hsections hsome
  rw [hlines] at hsections
  refine ⟨hannotated, _, counts, hsections, ?_⟩
  intro code n
  have hcodes : ∀ a ∈ annotated,
      (answer a).record?.map Record.country = some code ↔
        (a = .v4 0xcb007105 ∧ code = "NL") ∨ (a = .v4 0xc6336407 ∧ code = "") := by
    rw [hannotated]
    simp [answer, countingSource, Answer.record?, eq_comm]
  rw [hcounts]
  by_cases hcode : code = "NL"
  · have hone : (Cache.carriers answer annotated "NL").card = 1 := by
      simp only [hannotated]
      decide +kernel
    subst hcode
    rw [hone]
    simpa using fun h : n = 1 => h ▸ Nat.one_pos
  · refine iff_of_false ?_ fun h => hcode h.1
    rintro ⟨hne, hpos, rfl⟩
    obtain ⟨a, ha⟩ := Finset.card_pos.mp hpos
    obtain ⟨ha, hcountry⟩ := Finset.mem_filter.mp ha
    rcases (hcodes a ha).mp hcountry with ⟨-, h⟩ | ⟨-, h⟩
    · exact hcode h
    · exact hne h

end Task
end AccessAudit
