import AccessAudit.Proofs.Enrichment.Echo
import AccessAudit.Proofs.Task.Filling

/-!
# Reports can be repeated

Over a source that is a function of the address a block of a report is determined
by its sketch and, where it is the summary of countries, by what the cache has
remembered at that point.  The summary comes last among the sections of a run of the
top counts, and every run of them on one session asks about the same texts.  So
whatever is asked about after a summary was asked about before it, and a second run
finds the cache as the first one left it.
-/

namespace AccessAudit

open Store (Session)

namespace Sketch

/-- The texts that are annotated when a sketch is filled in. -/
def texts : Sketch → List String
  | .text _ => []
  | .table _ rows => rows.map (·.1)
  | .account _ sources => sources
  | .countries => []

/-- The block of a sketch over a source that is a function of the address, with the countries seen in the
end. -/
def written (answer : Address → Answer) (counts : List (String × Nat)) : Sketch → String
  | .text block => block
  | .table columns rows =>
      (Task.tableOf (columns ++ Task.orgColumns)
        (rows.map fun row => row.2 ++ Task.orgCells (Cache.noted answer row.1))).render
  | .account uid sources =>
      accountText uid ((sources.map fun text => Task.orgLabel (Cache.noted answer text)).zip sources)
  | .countries => countriesText counts

/-- In sketches, with some texts asked about before them, a summary of countries is followed by no text
that was not asked about before it. -/
def Orderly : List String → List Sketch → Prop
  | _, [] => True
  | asked, sketch :: rest =>
      (sketch = .countries → ∀ text ∈ rest.flatMap texts, text ∈ asked) ∧
        Orderly (asked ++ sketch.texts) rest

theorem cache_fill
    {σ : Type}
    (sketch : Sketch)
    (c : Cache σ) :
    (sketch.fill c).2 = (c.annotateAll sketch.texts).2 := by
  cases sketch <;> rfl

theorem cache_fillAll
    {σ : Type}
    (sketches : List Sketch)
    (c : Cache σ) :
    (fillAll sketches c).2 = (c.annotateAll (sketches.flatMap texts)).2 := by
  induction sketches generalizing c with
  | nil => rfl
  | cons sketch rest ih =>
      simp only [fillAll, List.flatMap_cons, Cache.annotateAll_append, ih, cache_fill]

section Written

variable {answer : Address → Answer} {c d : Cache (Unit × Transcript)}

theorem block_fill
    (h : Cache.Echoes answer c)
    (sketch : Sketch) :
    (sketch.fill c).1 = sketch.written answer c.countryCounts := by
  cases sketch with
  | text block => rfl
  | countries => rfl
  | table columns rows =>
      have hcells :
          List.zipWith (fun row r => row.2 ++ Task.orgCells r) rows
              (rows.map fun row => Cache.noted answer row.1) =
            rows.map fun row => row.2 ++ Task.orgCells (Cache.noted answer row.1) := by
        rw [List.zipWith_map_right, List.zipWith_self]
      simp only [fill, annotatedTable_fst, h.noted_annotateAll, List.map_map, written]
      rw [← hcells]
      rfl
  | account uid sources =>
      simp only [fill, h.noted_annotateAll, List.map_map, written]
      rfl

/-- Only the summary of countries depends on the countries. -/
theorem written_of_ne
    {sketch : Sketch}
    (hsketch : sketch ≠ .countries)
    (counts counts' : List (String × Nat)) :
    sketch.written answer counts = sketch.written answer counts' := by
  cases sketch with
  | text block => rfl
  | table columns rows => rfl
  | account uid sources => rfl
  | countries => exact absurd rfl hsketch

/-- A summary that is followed by nothing new shows the countries of the end. -/
theorem countryCounts_fillAll
    (h : Cache.Echoes answer c)
    {sketches : List Sketch}
    (hsettled : ∀ text ∈ sketches.flatMap texts, Cache.SettledText answer c text) :
    (fillAll sketches c).2.countryCounts = c.countryCounts := by
  rw [cache_fillAll]
  exact (h.rests_annotateAll hsettled).countryCounts

/-- The blocks of orderly sketches are determined by the countries that are seen in the end. -/
theorem lines_fillAll
    (h : Cache.Echoes answer c)
    {asked : List String}
    (hasked : ∀ text ∈ asked, Cache.SettledText answer c text)
    {sketches : List Sketch}
    (horderly : Orderly asked sketches) :
    (fillAll sketches c).1 =
      sketches.map (written answer (fillAll sketches c).2.countryCounts) := by
  induction sketches generalizing c asked with
  | nil => rfl
  | cons sketch rest ih =>
      obtain ⟨hcountries, hrest⟩ := horderly
      have hcache : (sketch.fill c).2 = (c.annotateAll sketch.texts).2 := sketch.cache_fill c
      have hechoes : Cache.Echoes answer (sketch.fill c).2 := by
        rw [hcache]
        exact h.annotateAll sketch.texts
      have hsettled : ∀ text ∈ asked ++ sketch.texts,
          Cache.SettledText answer (sketch.fill c).2 text := by
        intro text hmem
        rw [hcache]
        rcases List.mem_append.mp hmem with hmem | hmem
        · exact (hasked text hmem).annotateAll h sketch.texts
        · exact h.settled_annotateAll sketch.texts text hmem
      have hblock : (sketch.fill c).1 =
          sketch.written answer (fillAll rest (sketch.fill c).2).2.countryCounts := by
        rw [block_fill h]
        by_cases hsketch : sketch = .countries
        · subst hsketch
          have hlast : (fillAll rest c).2.countryCounts = c.countryCounts :=
            countryCounts_fillAll h fun text hmem => hasked text (hcountries rfl text hmem)
          show _ = written answer (fillAll rest c).2.countryCounts .countries
          rw [hlast]
        · exact written_of_ne hsketch _ _
      simp only [fillAll, List.map_cons, hblock, ih hechoes hsettled hrest]

/-- Filled in again, from a cache that knows what the first time has left, orderly sketches make the same
blocks, and nothing is learned. -/
theorem fillAll_again
    (h : Cache.Echoes answer c)
    {sketches : List Sketch}
    (horderly : Orderly [] sketches) :
    let first := fillAll sketches c
    let second := fillAll sketches first.2
    second.1 = first.1 ∧ Cache.Rests answer first.2 second.2 := by
  intro first second
  have hcache : first.2 = (c.annotateAll (sketches.flatMap texts)).2 := cache_fillAll sketches c
  have hechoes : Cache.Echoes answer first.2 := by
    rw [hcache]
    exact h.annotateAll _
  have hsettled : ∀ text ∈ sketches.flatMap texts, Cache.SettledText answer first.2 text := by
    rw [hcache]
    exact h.settled_annotateAll _
  have hrests : Cache.Rests answer first.2 second.2 := by
    simp only [second, cache_fillAll sketches first.2]
    exact hechoes.rests_annotateAll hsettled
  refine ⟨?_, hrests⟩
  have hfirst := lines_fillAll h (List.forall_mem_nil _) horderly
  have hsecond := lines_fillAll hechoes (List.forall_mem_nil _) horderly
  rw [hrests.countryCounts] at hsecond
  rw [hfirst]
  exact hsecond

end Written

/-! ### Orderly lists -/

/-- Sketches without a summary may come first. -/
theorem Orderly.append_of_not_mem
    {before after : List Sketch}
    (hbefore : Sketch.countries ∉ before)
    {asked : List String}
    (hafter : Orderly (asked ++ before.flatMap texts) after) :
    Orderly asked (before ++ after) := by
  induction before generalizing asked with
  | nil => simpa using hafter
  | cons sketch rest ih =>
      obtain ⟨hne, hrest⟩ := List.ne_and_not_mem_of_not_mem_cons hbefore
      refine ⟨fun heq => absurd heq.symm hne, ih hrest ?_⟩
      simpa [List.append_assoc] using hafter

end Sketch

namespace Task

/-! ### Where the summary of countries stands -/

theorem countries_not_mem_texts
    (blocks : List String) :
    Sketch.countries ∉ blocks.map Sketch.text := by
  simp

theorem countries_not_mem_sketch
    {config : Configuration}
    {part : Part}
    (hpart : part ≠ .countrySummary)
    {s : Session}
    {loaded : Bool}
    {sketches : List Sketch}
    (h : part.sketch config s loaded = .ok sketches) :
    Sketch.countries ∉ sketches := by
  have htable : part ∈ [Part.topSources, .openForeignSessions, .firewallBlocks] →
      Sketch.countries ∉ sketches := by
    intro hmem
    rcases sketch_of_table hmem h with rfl | ⟨columns, rows, rfl⟩ <;> simp
  have htext : ∀ report : Reporting Unit, Sketch.ofReport report s = .ok sketches →
      Sketch.countries ∉ sketches := by
    intro report hreport
    unfold Sketch.ofReport at hreport
    cases hrun : (report (s, Context.idle)).1 with
    | error f =>
        rw [hrun] at hreport
        cases hreport
    | ok blocks =>
        rw [hrun] at hreport
        cases hreport
        exact countries_not_mem_texts blocks
  cases part with
  | countrySummary => exact absurd rfl hpart
  | topSources => exact htable (by simp)
  | openForeignSessions => exact htable (by simp)
  | firewallBlocks => exact htable (by simp)
  | topUids => exact htext _ h
  | sourcesBySuccess => exact htext _ h
  | uidsBySuccess => exact htext _ h
  | foreignByAccount =>
      obtain ⟨summary, accounts, rfl⟩ := sketch_foreignByAccount h
      simp

theorem countries_not_mem_sketchLines
    (config : Configuration)
    {part : Part}
    (hpart : part ≠ .countrySummary)
    (s : Session)
    (loaded : Bool) :
    Sketch.countries ∉ part.sketchLines (part.sketch config s loaded) := by
  cases h : part.sketch config s loaded with
  | error f => exact countries_not_mem_texts _
  | ok sketches =>
      have hsketches := countries_not_mem_sketch hpart h
      simpa [Part.sketchLines] using hsketches

theorem countries_not_mem_partsSketch
    (config : Configuration)
    {parts : List Part}
    (hparts : Part.countrySummary ∉ parts)
    (s : Session)
    (loaded : Bool) :
    Sketch.countries ∉ partsSketch config s loaded parts := by
  intro hmem
  obtain ⟨part, hpart, hmem⟩ := List.mem_flatMap.mp hmem
  have hne : part ≠ .countrySummary := by
    rintro rfl
    exact hparts hpart
  exact countries_not_mem_sketchLines config hne s loaded hmem

/-- If there is anything to show, the summary of countries is the last part. -/
theorem shownParts_ending
    {s : Session}
    {parts : List Part}
    (h : shownParts s = .ok parts) :
    parts = [] ∨ ∃ before, parts = before ++ [.countrySummary] ∧ Part.countrySummary ∉ before := by
  unfold shownParts at h
  split at h
  · cases h
  · split at h
    · cases h
    · cases h
      exact Or.inl rfl
    · cases h
      exact Or.inr ⟨[.firewallBlocks], rfl, by simp⟩
  · cases h
    exact Or.inr
      ⟨[.topSources, .topUids, .sourcesBySuccess, .uidsBySuccess, .openForeignSessions,
        .foreignByAccount, .firewallBlocks], rfl, by simp⟩

/-- In the sketches of the top counts a summary of countries can only come last. -/
theorem rankingSketch_ending
    (config : Configuration)
    (s : Session)
    (loaded : Bool) :
    ∃ before, Sketch.countries ∉ before ∧
      (rankingSketch config s loaded = before ∨
        rankingSketch config s loaded = before ++ [.countries]) := by
  unfold rankingSketch
  split
  · exact ⟨[], by simp, Or.inl rfl⟩
  · split
    · exact ⟨_, countries_not_mem_texts _, Or.inl rfl⟩
    · next opened henter =>
        split
        · exact ⟨_, countries_not_mem_texts _, Or.inl rfl⟩
        · next parts hparts =>
            rcases shownParts_ending hparts with rfl | ⟨before, rfl, hbefore⟩
            · exact ⟨[], by simp, Or.inl rfl⟩
            · have hnone := countries_not_mem_partsSketch config hbefore opened loaded
              refine ⟨partsSketch config opened loaded before ++ [.text Part.countrySummary.heading],
                ?_, Or.inr ?_⟩
              · simpa using hnone
              · simp [partsSketch, Part.sketchLines, Part.sketch]

/-- The sketches of a run of reports ask about the same texts in every run of the top counts, and in
nothing else. -/
theorem texts_reports
    (config : Configuration)
    {tasks : List Task}
    (htasks : ∀ task ∈ tasks, task.IsReport)
    (s : Session)
    (loaded : Bool) :
    ∀ text ∈ (tasks.flatMap (reportSketch config s loaded)).flatMap Sketch.texts,
      text ∈ (rankingSketch config s loaded).flatMap Sketch.texts := by
  intro text hmem
  obtain ⟨sketch, hsketch, htext⟩ := List.mem_flatMap.mp hmem
  obtain ⟨task, htask, hsketch⟩ := List.mem_flatMap.mp hsketch
  rcases htasks task htask with rfl | rfl
  · obtain ⟨block, -, rfl⟩ := List.mem_map.mp hsketch
    cases htext
  · exact List.mem_flatMap.mpr ⟨sketch, hsketch, htext⟩

theorem orderly_reports
    (config : Configuration)
    {tasks : List Task}
    (htasks : ∀ task ∈ tasks, task.IsReport)
    (s : Session)
    (loaded : Bool)
    (asked : List String) :
    Sketch.Orderly asked (tasks.flatMap (reportSketch config s loaded)) := by
  induction tasks generalizing asked with
  | nil => trivial
  | cons task rest ih =>
      have hrest : ∀ other ∈ rest, other.IsReport := fun other hmem =>
        htasks other (List.mem_cons_of_mem task hmem)
      have hmore := ih hrest
      have htexts := texts_reports config hrest s loaded
      rw [List.flatMap_cons]
      rcases htasks task List.mem_cons_self with rfl | rfl
      · exact Sketch.Orderly.append_of_not_mem (countries_not_mem_texts _) (hmore _)
      · obtain ⟨before, hbefore, hsketch⟩ := rankingSketch_ending config s loaded
        have hasked : ∀ text ∈ (rest.flatMap (reportSketch config s loaded)).flatMap Sketch.texts,
            text ∈ before.flatMap Sketch.texts := by
          intro text hmem
          have htext := htexts text hmem
          rcases hsketch with hsketch | hsketch
          · rwa [hsketch] at htext
          · simpa [hsketch, Sketch.texts] using htext
        simp only [reportSketch]
        rcases hsketch with hsketch | hsketch
        · rw [hsketch]
          exact Sketch.Orderly.append_of_not_mem hbefore (hmore _)
        · rw [hsketch, List.append_assoc]
          refine Sketch.Orderly.append_of_not_mem hbefore ⟨?_, hmore _⟩
          intro _ text hmem
          exact List.mem_append_right _ (hasked text hmem)

/-! ### Two runs -/

/-- Reports that are run twice in one context, over a source that is a function of the address and a cache
that was filled from it by any questions, say the same both times.  They leave the session as it was; the
second run leaves the cache as it found it, and asks about addresses only of which the source knows
nothing. -/
theorem reports_idempotent
    (config : Configuration)
    (tasks : List Task)
    (htasks : ∀ task ∈ tasks, task = .dailyCounting ∨ task = .ranking)
    (answer : Address → Answer)
    (history : List Query)
    (s : Session)
    (loaded : Bool)
    (notices : List Notice) :
    let source := Cache.fresh (Transcript.keep fun u a => (answer a, u)) ((), [])
    let c : Context (Unit × Transcript) := ⟨(Query.runAll history source).2, loaded, notices⟩
    let first := runAll config tasks (s, c)
    let second := runAll config tasks first.2
    second.1 = first.1 ∧
    first.2.1 = s ∧
    second.2.1 = s ∧
    second.2.2.cache.records = first.2.2.cache.records ∧
    second.2.2.cache.countries = first.2.2.cache.countries ∧
    ∃ asked,
      second.2.2.cache.source.2 = first.2.2.cache.source.2 ++ asked ∧
      ∀ a reply, (a, reply) ∈ asked → reply = answer a ∧ ∀ r, answer a ≠ .record r := by
  intro source c first second
  have hechoes : Cache.Echoes answer c.cache := Cache.echoes_runAll answer history
  let sketches := tasks.flatMap (reportSketch config s loaded)
  have horderly : Sketch.Orderly [] sketches := orderly_reports config htasks s loaded []
  obtain ⟨hagain, hrests⟩ := Sketch.fillAll_again hechoes horderly
  have hfirst : Sketch.Fills sketches s c first := fills_runAll config htasks s c
  have hstate : first.2 = (s, first.2.2) := Prod.ext hfirst.session rfl
  have hsecond : Sketch.Fills sketches s first.2.2 second := by
    have hfills := fills_runAll config htasks s first.2.2
    rw [hfirst.referenceLoaded, ← hstate] at hfills
    exact hfills
  rw [← hfirst.cache, ← hsecond.cache] at hrests
  refine ⟨?_, hfirst.session, hsecond.session, hrests.records, hrests.countries, ?_⟩
  · rw [hsecond.lines, hfirst.lines, hfirst.cache, hagain]
  · obtain ⟨asked, hasked, hknown⟩ := hrests.asked
    refine ⟨asked, hasked, ?_⟩
    intro a reply hmem
    obtain ⟨hreply, hnone⟩ := hknown a reply hmem
    refine ⟨hreply, ?_⟩
    intro r hr
    rw [Answer.record?_eq_some_iff.mpr hr] at hnone
    cases hnone

/-- A log of one session that may still be open, and one blocked address. -/
def quietLog : Session :=
  { committed :=
      ⟨some [⟨"198.51.100.7", .openSession, .integer 1002, "2024-03-18 09:30:00"⟩],
        some [some "203.0.113.5"]⟩
    now := 1710892800 }

/-- A source that knows one network and fails on every other address. -/
def patchySource : Address → Answer :=
  fun a => if a = .v4 0xc6336407 then .record ⟨"198.51.100.0/24", "US", "EXAMPLE-NET"⟩
    else .failure ["connection refused"]

/-- The source of the session has a record and is asked about once; the blocked address has none and is
asked about in every run of the reports. -/
theorem patchySource_asked_again :
    let source := Cache.fresh (Transcript.keep fun u a => (patchySource a, u)) ((), [])
    let c : Context (Unit × Transcript) :=
      ⟨(Query.runAll [.annotate "203.0.113.5"] source).2, false, []⟩
    let first := runAll {} [.ranking, .dailyCounting] (quietLog, c)
    let second := runAll {} [.ranking, .dailyCounting] first.2
    second.1 = first.1 ∧
    first.2.2.cache.source.2 =
      [(.v4 0xcb007105, .failure ["connection refused"]),
        (.v4 0xc6336407, .record ⟨"198.51.100.0/24", "US", "EXAMPLE-NET"⟩),
        (.v4 0xcb007105, .failure ["connection refused"])] ∧
    second.2.2.cache.source.2 =
      first.2.2.cache.source.2 ++ [(.v4 0xcb007105, .failure ["connection refused"])] := by
  intro source c first second
  obtain ⟨hlines, -⟩ :=
    reports_idempotent {} [.ranking, .dailyCounting] (by simp) patchySource [.annotate "203.0.113.5"]
      quietLog false []
  refine ⟨hlines, ?_, ?_⟩
  · decide +kernel
  · decide +kernel

end Task
end AccessAudit
