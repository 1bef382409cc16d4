import AccessAudit.Proofs.Task.Repetition
import AccessAudit.Proofs.Task.Rows

/-!
# Reports do not depend on the order of the log

Two sessions hold the same rows in another order.  Every part of a report reads
them through rows that are listed in an order of their own, so the two sessions are
sketched alike, and over one cache the reports are the same and ask the same
questions.

There is one thing that the order of the log decides.  A column of user ids may hold
one value as a whole number and as a floating-point number, which are gathered in one
group and listed as the first of them is.
-/

namespace AccessAudit
namespace Task

open Store (Session Event NewEvent Value Uid Tables Discerned)

variable {σ : Type}

/-- Two sessions that see the same rows in another order and agree otherwise.  No two user ids have the
same value without being the same. -/
structure Shuffled (s t : Session) : Prop where
  events : Option.Rel List.Perm s.tables.events t.tables.events
  blocks : Option.Rel List.Perm s.tables.blocks t.tables.blocks
  reference : t.reference = s.reference
  localNetworks : t.localNetworks = s.localNetworks
  now : t.now = s.now
  discerned : ∀ events, s.tables.events = some events → Discerned (events.map (·.uid))

namespace Shuffled

variable {s t : Session}

theorem cases_of_rel
    {α : Type}
    {rows rows' : Option (List α)}
    (h : Option.Rel List.Perm rows rows') :
    (rows = none ∧ rows' = none) ∨
    ∃ found found', rows = some found ∧ rows' = some found' ∧ found.Perm found' := by
  cases h with
  | none => exact Or.inl ⟨rfl, rfl⟩
  | some hperm => exact Or.inr ⟨_, _, rfl, rfl, hperm⟩

theorem getEvents
    (h : Shuffled s t) :
    (∃ f, s.tables.getEvents = .error f ∧ t.tables.getEvents = .error f) ∨
    ∃ events events',
      s.tables.getEvents = .ok events ∧ t.tables.getEvents = .ok events' ∧
      events.Perm events' ∧ Discerned (events.map (·.uid)) := by
  unfold Tables.getEvents
  rcases cases_of_rel h.events with ⟨hs, ht⟩ | ⟨events, events', hs, ht, hperm⟩
  · rw [hs, ht]
    exact Or.inl ⟨_, rfl, rfl⟩
  · have hdiscerned := h.discerned events hs
    rw [hs, ht]
    exact Or.inr ⟨events, events', rfl, rfl, hperm, hdiscerned⟩

theorem getEntities
    (h : Shuffled s t) :
    (∃ f, s.tables.getEntities = .error f ∧ t.tables.getEntities = .error f) ∨
    ∃ blocks blocks',
      s.tables.getEntities = .ok blocks ∧ t.tables.getEntities = .ok blocks' ∧
      blocks.Perm blocks' := by
  unfold Tables.getEntities
  rcases cases_of_rel h.blocks with ⟨hs, ht⟩ | ⟨blocks, blocks', hs, ht, hperm⟩
  · rw [hs, ht]
    exact Or.inl ⟨_, rfl, rfl⟩
  · rw [hs, ht]
    exact Or.inr ⟨blocks, blocks', rfl, rfl, hperm⟩

/-! ### Sketches -/

theorem ofReport_onEvents
    (h : Shuffled s t)
    {report : Session → List Event → Except Fault (List String)}
    (hreport : ∀ events events' : List Event,
      events.Perm events' → Discerned (events.map (·.uid)) →
      report s.fixView events = report t.fixView events') :
    Sketch.ofReport (onEvents report) s = Sketch.ofReport (onEvents report) t := by
  unfold Sketch.ofReport onEvents
  dsimp only [Session.read]
  rcases h.getEvents with ⟨f, hs, ht⟩ | ⟨events, events', hs, ht, hperm, hdiscerned⟩
  · rw [hs, ht]
  · rw [hs, ht]
    dsimp only
    rw [hreport events events' hperm hdiscerned]

theorem sketch_topSources
    (h : Shuffled s t)
    (config : Configuration)
    (loaded : Bool) :
    Part.topSources.sketch config s loaded = Part.topSources.sketch config t loaded := by
  simp only [Part.sketch, h.now]
  rcases h.getEvents with ⟨f, hs, ht⟩ | ⟨events, events', hs, ht, hperm, hdiscerned⟩
  · rw [hs, ht]
  · have hrows := volumeRows_of_perm Event.source Event.uid Store.ranked_textLe
      (fun _ _ => trivial) (Store.ranked_uids hdiscerned) (fun e he => List.mem_map_of_mem he)
      s.now config.topN hperm
    rw [hs, ht]
    simp only [Fault.plain, bind, Except.bind, hrows]

theorem sketch_openForeignSessions
    (h : Shuffled s t)
    (config : Configuration)
    (loaded : Bool) :
    Part.openForeignSessions.sketch config s loaded =
      Part.openForeignSessions.sketch config t loaded := by
  simp only [Part.sketch, h.localNetworks]
  rcases h.getEvents with ⟨f, hs, ht⟩ | ⟨events, events', hs, ht, hperm, hdiscerned⟩
  · rw [hs, ht]
  · have hrows := openRows_of_perm hdiscerned s.localNetworks config.topN hperm
    have huids := openUids_of_perm hdiscerned s.localNetworks config.topN hperm
    rw [hs, ht]
    simp only [Fault.plain, bind, Except.bind, hrows, huids]

theorem sketch_foreignByAccount
    (h : Shuffled s t)
    (config : Configuration)
    (loaded : Bool) :
    Part.foreignByAccount.sketch config s loaded = Part.foreignByAccount.sketch config t loaded := by
  have hreference : t.getReference = s.getReference := by
    unfold Session.getReference
    rw [h.reference]
  simp only [Part.sketch, h.localNetworks, hreference]
  rcases h.getEvents with ⟨f, hs, ht⟩ | ⟨events, events', hs, ht, hperm, -⟩
  · rw [hs, ht]
  · rw [hs, ht]
    cases s.getReference with
    | error f => rfl
    | ok reference =>
        have hrows := accountRows_of_perm s.localNetworks reference config.topN hperm
        have hsources := fun uid => foreignSourcesOf_of_perm s.localNetworks uid hperm
        have hasked := onlyAddresses_of_perm config.topN
          ((accountOpenings_of_perm reference hperm).map (·.2.source))
        simp only [Fault.plain, bind, Except.bind, hrows, hsources, hasked]

theorem sketch_firewallBlocks
    (h : Shuffled s t)
    (config : Configuration)
    (loaded : Bool) :
    Part.firewallBlocks.sketch config s loaded = Part.firewallBlocks.sketch config t loaded := by
  simp only [Part.sketch]
  rcases h.getEntities with ⟨f, hs, ht⟩ | ⟨blocks, blocks', hs, ht, hperm⟩
  · rw [hs, ht]
  · have hentities := Store.ranked_textLe.mergeSort_of_perm (fun _ _ => trivial) (hperm.filterMap id)
    rw [hs, ht]
    simp only [Fault.plain, bind, Except.bind, hperm.any_eq, hentities]

/-- Every part is sketched alike. -/
theorem sketch_eq
    (h : Shuffled s t)
    (config : Configuration)
    (part : Part)
    (loaded : Bool) :
    part.sketch config s loaded = part.sketch config t loaded := by
  have hnow : t.fixView.now = s.fixView.now := h.now
  cases part with
  | topSources => exact h.sketch_topSources config loaded
  | topUids =>
      refine h.ofReport_onEvents ?_
      intro events events' hperm hdiscerned
      have hrows := volumeRows_of_perm Event.uid Event.source (Store.ranked_uids hdiscerned)
        (fun e he => List.mem_map_of_mem he) Store.ranked_textLe (fun _ _ => trivial)
        s.fixView.now config.topN hperm
      simp only [hnow, hrows]
  | sourcesBySuccess =>
      refine h.ofReport_onEvents ?_
      intro events events' hperm hdiscerned
      have hrows := ratioRows_of_perm Event.source Event.uid Store.ranked_textLe
        (fun _ _ => trivial) (Store.ranked_uids hdiscerned) (fun e he => List.mem_map_of_mem he)
        s.fixView.now config hperm
      have hlists := fun source => uidsOfSource_of_perm hdiscerned source hperm
      simp only [hnow, hrows, hlists]
  | uidsBySuccess =>
      refine h.ofReport_onEvents ?_
      intro events events' hperm hdiscerned
      have hrows := ratioRows_of_perm Event.uid Event.source (Store.ranked_uids hdiscerned)
        (fun e he => List.mem_map_of_mem he) Store.ranked_textLe (fun _ _ => trivial)
        s.fixView.now config hperm
      have hlists := fun uid => sourcesOfUid_of_perm uid hperm
      simp only [hnow, hrows, hlists]
  | openForeignSessions => exact h.sketch_openForeignSessions config loaded
  | foreignByAccount => exact h.sketch_foreignByAccount config loaded
  | firewallBlocks => exact h.sketch_firewallBlocks config loaded
  | countrySummary => rfl

/-! ### Tasks -/

theorem countEvents_eq
    (h : Shuffled s t) :
    (countEvents s).1 = (countEvents t).1 := by
  unfold countEvents
  dsimp only [Session.read]
  rcases h.getEvents with ⟨f, hs, ht⟩ | ⟨events, events', hs, ht, hperm, -⟩
  · rw [hs, ht]
  · rw [hs, ht]
    simp only [Except.map, hperm.length_eq]

theorem countBlocks_eq
    (h : Shuffled s t) :
    (countBlocks s).1 = (countBlocks t).1 := by
  unfold countBlocks
  dsimp only [Session.read]
  rcases h.getEntities with ⟨f, hs, ht⟩ | ⟨blocks, blocks', hs, ht, hperm⟩
  · rw [hs, ht]
  · rw [hs, ht]
    simp only [Except.map, hperm.length_eq]

theorem shownParts_eq
    (h : Shuffled s t) :
    shownParts s = shownParts t := by
  unfold shownParts
  rw [h.countEvents_eq, h.countBlocks_eq]

theorem dailyEventCount_eq
    (h : Shuffled s t)
    (c : Context σ) :
    (dailyEventCount (s, c)).1 = (dailyEventCount (t, c)).1 := by
  have hcounted : countEvents s = ((countEvents s).1, s.fixView) := rfl
  have hcounted' : countEvents t = ((countEvents s).1, t.fixView) := by
    rw [h.countEvents_eq]
    rfl
  have hnow : t.fixView.fixView.now = s.fixView.fixView.now := h.now
  unfold dailyEventCount
  dsimp only
  rw [hcounted, hcounted']
  rcases (countEvents s).1 with f | n
  · rfl
  · cases n with
    | zero => rfl
    | succ n =>
        simp only [inSection, onEvents, Session.read, Session.tables_fixView]
        rcases h.getEvents with ⟨f, hs, ht⟩ | ⟨events, events', hs, ht, hperm, -⟩
        · rw [hs, ht]
        · rw [hs, ht]
          simp only [hnow, dailyTable_of_perm s.fixView.fixView.now hperm]
          cases dailyTable s.fixView.fixView.now events' <;> rfl

end Shuffled

section Contents

variable {s : Session} {contents : Tables}

theorem shuffled_opened
    (hevents : Option.Rel List.Perm s.committed.events contents.events)
    (hblocks : Option.Rel List.Perm s.committed.blocks contents.blocks)
    (hdiscerned : ∀ events, s.committed.events = some events → Discerned (events.map (·.uid))) :
    Shuffled s.opened { s with committed := contents }.opened where
  events := hevents
  blocks := hblocks
  reference := rfl
  localNetworks := rfl
  now := rfl
  discerned := hdiscerned

/-- Either session is refused within an open transaction, and otherwise starts on what is committed. -/
theorem enter_of_sameRows
    (s : Session)
    (contents : Tables) :
    (Mode.alwaysRollBack.enter s = .error Scope.refusal ∧
      Mode.alwaysRollBack.enter { s with committed := contents } = .error Scope.refusal) ∨
    (Mode.alwaysRollBack.enter s = .ok s.opened ∧
      Mode.alwaysRollBack.enter { s with committed := contents } =
        .ok { s with committed := contents }.opened) := by
  have hsame : { s with committed := contents }.inTransaction = s.inTransaction := rfl
  unfold Mode.enter
  rw [hsame]
  cases s.inTransaction with
  | true => exact Or.inl ⟨rfl, rfl⟩
  | false => exact Or.inr ⟨rfl, rfl⟩

theorem rankingSketch_of_sameRows
    (h : Shuffled s.opened { s with committed := contents }.opened)
    (config : Configuration)
    (loaded : Bool) :
    rankingSketch config s loaded = rankingSketch config { s with committed := contents } loaded := by
  have hmode : Task.ranking.mode = .alwaysRollBack := rfl
  unfold rankingSketch
  rw [hmode]
  rcases enter_of_sameRows s contents with ⟨hs, ht⟩ | ⟨hs, ht⟩
  · rw [hs, ht]
  · rw [hs, ht]
    dsimp only
    rw [h.shownParts_eq]
    simp only [h.sketch_eq config _ loaded]

theorem dailyLines_of_sameRows
    (h : Shuffled s.opened { s with committed := contents }.opened)
    (config : Configuration)
    (c : Context σ) :
    (Task.dailyCounting.run config (s, c)).1 =
      (Task.dailyCounting.run config ({ s with committed := contents }, c)).1 := by
  have hmode : Task.dailyCounting.mode = .alwaysRollBack := rfl
  have hbody := h.dailyEventCount_eq c
  rw [run_lines, run_lines]
  unfold verdict
  dsimp only
  rw [hmode]
  rcases enter_of_sameRows s contents with ⟨hs, ht⟩ | ⟨hs, ht⟩
  · rw [hs, ht]
  · rw [hs, ht]
    simp only [body, hbody]

/-- A task that reports is sketched alike. -/
theorem reportSketch_of_sameRows
    (h : Shuffled s.opened { s with committed := contents }.opened)
    (config : Configuration)
    (loaded : Bool)
    (task : Task) :
    reportSketch config s loaded task =
      reportSketch config { s with committed := contents } loaded task := by
  cases task with
  | ranking => exact rankingSketch_of_sameRows h config loaded
  | dailyCounting =>
      have hlines := dailyLines_of_sameRows h config Context.idle
      simp only [reportSketch, hlines]
  | purging => rfl
  | compacting => rfl

end Contents

/-! ### Small logs -/

/-- A log of some events, and no blocks. -/
def logOf (events : List Event) : Session :=
  { committed := ⟨some events, some []⟩
    now := 1792143000 }

/-- A source that knows one network for all addresses. -/
def oneNetwork : Address → Answer :=
  fun _ => .record ⟨"198.51.100.0/24", "US", "EXAMPLE-NET"⟩

/-- A context that has asked nothing yet. -/
def unasked : Context (Unit × Transcript) :=
  { cache := Cache.fresh (Transcript.keep fun u a => (oneNetwork a, u)) ((), []) }

/-- The texts that the section of a part asks about. -/
def Part.asks (config : Configuration) (s : Session) (loaded : Bool) (part : Part) : List String :=
  (part.sketchLines (part.sketch config s loaded)).flatMap Sketch.texts

theorem flatMap_texts
    (blocks : List String) :
    (blocks.map Sketch.text).flatMap Sketch.texts = [] := by
  simp [List.flatMap_map, Sketch.texts]

/-- A part that fails asks about nothing. -/
theorem asks_of_error
    {config : Configuration}
    {s : Session}
    {loaded : Bool}
    {part : Part}
    {f : Fault}
    (h : part.sketch config s loaded = .error f) :
    part.asks config s loaded = [] := by
  unfold Part.asks
  rw [h]
  exact flatMap_texts _

theorem texts_ofReport
    {report : Reporting Unit}
    {part : Part}
    {s : Session} :
    (part.sketchLines (Sketch.ofReport report s)).flatMap Sketch.texts = [] := by
  unfold Sketch.ofReport
  cases (report (s, Context.idle)).1 with
  | error f => exact flatMap_texts _
  | ok blocks => exact flatMap_texts blocks

/-- The parts of the top counts but the summary of countries, which comes last. -/
def partsBefore : List Part :=
  [.topSources, .topUids, .sourcesBySuccess, .uidsBySuccess, .openForeignSessions, .foreignByAccount,
    .firewallBlocks]

theorem rankingSketch_logOf
    (config : Configuration)
    (hreport : config.report = true)
    {events : List Event}
    (hne : events ≠ []) :
    rankingSketch config (logOf events) false =
      partsSketch config (logOf events).opened false partsBefore ++
        [.text Part.countrySummary.heading, .countries] := by
  have henabled : Task.ranking.isEnabled config = true := hreport
  have henter : Task.ranking.mode.enter (logOf events) = .ok (logOf events).opened := rfl
  have hparts : shownParts (logOf events).opened = .ok (partsBefore ++ [.countrySummary]) := by
    cases events with
    | nil => exact absurd rfl hne
    | cons e rest => rfl
  unfold rankingSketch
  rw [henabled, henter]
  dsimp only
  rw [hparts]
  exact List.flatMap_append

/-- Where no address has many events, only open sessions are asked about. -/
theorem texts_partsBefore
    (config : Configuration)
    {events : List Event}
    (hfew : Part.topSources.asks config (logOf events).opened false = []) :
    (partsSketch config (logOf events).opened false partsBefore).flatMap Sketch.texts =
      Part.openForeignSessions.asks config (logOf events).opened false := by
  have htexts : (partsSketch config (logOf events).opened false partsBefore).flatMap Sketch.texts =
      partsBefore.flatMap (Part.asks config (logOf events).opened false) :=
    List.flatMap_assoc
  have huids : Part.topUids.asks config (logOf events).opened false = [] := texts_ofReport
  have hrates : Part.sourcesBySuccess.asks config (logOf events).opened false = [] := texts_ofReport
  have hrates' : Part.uidsBySuccess.asks config (logOf events).opened false = [] := texts_ofReport
  have haccounts : Part.foreignByAccount.asks config (logOf events).opened false = [] := rfl
  have hblocks : Part.firewallBlocks.asks config (logOf events).opened false = [] := by
    simp [Part.asks, Part.sketch, Part.sketchLines, logOf, Session.opened, Session.tables,
      Tables.getEntities, Fault.plain, bind, Except.bind, onlyTexts, Sketch.texts]
  rw [htexts]
  simp only [partsBefore, List.flatMap_cons, List.flatMap_nil, hfew, huids, hrates, hrates', haccounts,
    hblocks, List.nil_append, List.append_nil]

/-- A run of the top counts asks about the addresses of the open sessions, and ends in the countries that
were found for them. -/
theorem ranking_logOf
    (config : Configuration)
    (hreport : config.report = true)
    {events : List Event}
    (hne : events ≠ [])
    (hfew : Part.topSources.asks config (logOf events).opened false = [])
    {addresses : List String}
    (hopen : Part.openForeignSessions.asks config (logOf events).opened false = addresses) :
    let told := runAll config [.ranking] (logOf events, unasked)
    let found := (unasked.cache.annotateAll addresses).2
    told.1.getLast? = some (Sketch.countriesText found.countryCounts) ∧
    told.2.2.cache.source.2 = found.source.2 := by
  intro told found
  have htask : ∀ task ∈ [Task.ranking], task.IsReport := by
    intro task htask
    exact Or.inr (List.mem_singleton.mp htask)
  have hfills := fills_runAll config htask (logOf events) unasked
  have hsketches : [Task.ranking].flatMap (reportSketch config (logOf events) false) =
      partsSketch config (logOf events).opened false partsBefore ++
        [.text Part.countrySummary.heading, .countries] :=
    (List.append_nil _).trans (rankingSketch_logOf config hreport hne)
  have hfound : (Sketch.fillAll (partsSketch config (logOf events).opened false partsBefore)
      unasked.cache).2 = found := by
    rw [Sketch.cache_fillAll, texts_partsBefore config hfew, hopen]
  have hlines := hfills.lines
  have hcache := hfills.cache
  rw [show unasked.referenceLoaded = false from rfl, hsketches, Sketch.fillAll_append, hfound]
    at hlines hcache
  refine ⟨?_, ?_⟩
  · rw [show told.1 = _ from hlines]
    simp [Sketch.fillAll, Sketch.fill]
  · rw [show told.2.2.cache = _ from hcache]
    rfl

/-- An open session of a user id at an address. -/
def openingAt (source : String) (uid : Uid) : Event :=
  ⟨source, .openSession, uid, "2026-10-15 08:00:00"⟩

/-! ### The order of the rows -/

/-- Reports over a log whose rows were inserted in another order, with the same blocks and over the same
source: they tell the same and ask the source the same questions in the same order, whatever the limit
of the rankings.  It is enough that no two user ids of the log have the same value without being the
same. -/
theorem reports_order_free
    (config : Configuration)
    (tasks : List Task)
    (htasks : ∀ task ∈ tasks, task = .dailyCounting ∨ task = .ranking)
    (ask : σ → Address → Answer × σ)
    (state : σ)
    (history : List Query)
    (s : Session)
    (contents : Tables)
    (hevents : Option.Rel List.Perm s.committed.events contents.events)
    (hblocks : Option.Rel List.Perm s.committed.blocks contents.blocks)
    (hdiscerned : ∀ events, s.committed.events = some events → Discerned (events.map (·.uid)))
    (loaded : Bool)
    (notices : List Notice) :
    let source := Cache.fresh (Transcript.keep ask) (state, [])
    let c : Context (σ × Transcript) := ⟨(Query.runAll history source).2, loaded, notices⟩
    let told := runAll config tasks (s, c)
    let told' := runAll config tasks ({ s with committed := contents }, c)
    -- the sections are the same
    told'.1 = told.1 ∧
    -- the source was asked the same questions
    told'.2.2.cache.source.2 = told.2.2.cache.source.2 ∧
    -- and the same is remembered
    told'.2.2.cache = told.2.2.cache := by
  intro source c told told'
  have hopened := shuffled_opened hevents hblocks hdiscerned
  have hsketches : tasks.flatMap (reportSketch config s loaded) =
      tasks.flatMap (reportSketch config { s with committed := contents } loaded) :=
    List.flatMap_congr fun task _ => reportSketch_of_sameRows hopened config loaded task
  have hfills := fills_runAll config htasks s c
  have hfills' := fills_runAll config htasks { s with committed := contents } c
  rw [← hsketches] at hfills'
  have hcache : told'.2.2.cache = told.2.2.cache := hfills'.cache.trans hfills.cache.symm
  refine ⟨hfills'.lines.trans hfills.lines.symm, ?_, hcache⟩
  rw [hcache]

/-- Two open sessions that tie for the first place. -/
def tied : List Event :=
  [openingAt "198.51.100.7" (.integer 1002), openingAt "198.51.100.9" (.integer 1001)]

/-- Whichever of two that tie was logged first, the one with the lesser user id is listed and asked about
where the ranking has one place. -/
theorem tied_order_free :
    let told := runAll { topN := 1 } [.ranking] (logOf tied, unasked)
    let told' := runAll { topN := 1 } [.ranking] (logOf tied.reverse, unasked)
    told'.1 = told.1 ∧
    told.2.2.cache.source.2 = [(.v4 0xc6336409, oneNetwork (.v4 0xc6336409))] ∧
    told'.2.2.cache.source.2 = told.2.2.cache.source.2 := by
  have hdiscerned : ∀ events, (logOf tied).committed.events = some events →
      Discerned (events.map (·.uid)) := by
    intro events hevents
    cases hevents
    refine Store.discerned_of_kept ?_ (by decide)
    intro uid huid
    simp only [tied, openingAt, List.map_cons, List.map_nil, List.mem_cons, List.not_mem_nil,
      or_false] at huid
    rcases huid with rfl | rfl <;> rfl
  have hfew : Part.topSources.asks { topN := 1 } (logOf tied).opened false = [] := by
    cbv
  have hopen : Part.openForeignSessions.asks { topN := 1 } (logOf tied).opened false =
      ["198.51.100.9"] := by
    cbv
  obtain ⟨-, hasked⟩ := ranking_logOf { topN := 1 } rfl (List.cons_ne_nil _ _) hfew hopen
  obtain ⟨hlines, hcalls, -⟩ :=
    reports_order_free { topN := 1 } [.ranking] (by simp) (fun u a => (oneNetwork a, u)) () []
      (logOf tied) ⟨some tied.reverse, some []⟩
      (.some tied.reverse_perm.symm) (.some (List.Perm.refl _)) hdiscerned false []
  refine ⟨hlines, ?_, hcalls⟩
  exact hasked.trans rfl

/-- A row for an open session, with a user id of some kind. -/
def rowWith (uid : Value) : NewEvent :=
  ⟨.text "198.51.100.7", .text "open_session", uid, some (.text "2026-10-15 08:00:00")⟩

/-- The least whole number of 64 bits, to be logged as such and as a floating-point number. -/
def mixedRows : List NewEvent :=
  [rowWith (.integer (-9223372036854775808)), rowWith (.real .leastInt64)]

/-- The two rows as they are logged. -/
def mixed : List Event :=
  [openingAt "198.51.100.7" (.integer (-9223372036854775808)),
    openingAt "198.51.100.7" (.real .leastInt64)]

/-- Where two user ids have one value, the order shows.  The two rows make one group, which is listed as
the first of them is.  If that is the floating-point number, the section fails: nothing is asked about, and
no country is found. -/
theorem mixed_shows_order :
    (logOf []).insertEvents mixedRows = (.ok 2, logOf mixed) ∧
    (logOf []).insertEvents mixedRows.reverse = (.ok 2, logOf mixed.reverse) ∧
    let told := runAll {} [.ranking] (logOf mixed, unasked)
    let told' := runAll {} [.ranking] (logOf mixed.reverse, unasked)
    told.1 ≠ told'.1 ∧
    told.2.2.cache.source.2 = [(.v4 0xc6336407, oneNetwork (.v4 0xc6336407))] ∧
    told'.2.2.cache.source.2 = [] := by
  have hne : mixed ≠ [] := List.cons_ne_nil _ _
  have hne' : mixed.reverse ≠ [] := List.cons_ne_nil _ _
  have hfew : Part.topSources.asks {} (logOf mixed).opened false = [] := by
    cbv
  have hfew' : Part.topSources.asks {} (logOf mixed.reverse).opened false = [] := by
    cbv
  have hopen : Part.openForeignSessions.asks {} (logOf mixed).opened false = ["198.51.100.7"] := by
    cbv
  have hfault : Part.openForeignSessions.sketch {} (logOf mixed.reverse).opened false =
      .error (Fault.ofStore (.columnType .real 0 "uid")) := by
    cbv
  obtain ⟨hlast, hasked⟩ := ranking_logOf {} rfl hne hfew hopen
  obtain ⟨hlast', hasked'⟩ := ranking_logOf {} rfl hne' hfew' (asks_of_error hfault)
  refine ⟨by decide +kernel, by decide +kernel, ?_, hasked.trans rfl, hasked'.trans rfl⟩
  intro hlines
  rw [hlines, hlast'] at hlast
  exact absurd hlast (by decide +kernel)

end Task
end AccessAudit
