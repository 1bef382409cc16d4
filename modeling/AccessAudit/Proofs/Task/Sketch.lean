import AccessAudit.Proofs.Task.Reading

/-!
# Sketches of reports

A report comes about in two steps.  From what it sees of the session it makes a
sketch, in which the places of the annotations are left open.  Then the
sketch is filled in from the cache, block by block, and the cache learns what it
had to ask for.  A report that fails does so before its sketch is complete, so it
has not asked for anything.

Each part of the top counts is shown to be the filling of its sketch, and so are
the sections of several parts.
-/

namespace AccessAudit

open Store (Session Event Uid)

/-- A block of a report before annotations are made. -/
inductive Sketch
  /-- A block without annotations. -/
  | text (block : String)
  /-- A table with rows to be annotated, each beside the address that it is about. -/
  | table (columns : List (String × Align)) (rows : List (String × List String))
  /-- The addresses of an account, to be listed by organization. -/
  | account (uid : Int) (sources : List String)
  /-- The countries of all addresses annotated so far. -/
  | countries
  deriving Repr, DecidableEq

namespace Sketch

variable {σ : Type}

/-- The list of an account's addresses, each with the label of its organization. -/
def accountText (uid : Int) (labelled : List (String × String)) : String :=
  bulletList ("    - uid \"" ++ Decimal.text uid ++ "\", sessions opened from foreign IPs:")
    (Task.orgLines labelled)

/-- The table of countries. -/
def countriesText (counts : List (String × Nat)) : String :=
  let table : Table :=
    { headers := ["org country", "addresses"]
      rows := counts.map fun (country, count) => [country, Decimal.groupedText count]
      alignments := [("org country", .center), ("addresses", .right)] }
  if counts.isEmpty then "No matching data." else table.render

/-- The block of a sketch, with annotations from a cache. -/
def fill : Sketch → Cache σ → String × Cache σ
  | .text block, cache => (block, cache)
  | .table columns rows, cache => Task.annotatedTable columns rows cache
  | .account uid sources, cache =>
      let (records, cache) := cache.annotateAll sources
      (accountText uid ((records.map Task.orgLabel).zip sources), cache)
  | .countries, cache => (countriesText cache.countryCounts, cache)

/-- The blocks of several sketches, one after the other. -/
def fillAll : List Sketch → Cache σ → List String × Cache σ
  | [], cache => ([], cache)
  | sketch :: rest, cache =>
      let (block, cache) := sketch.fill cache
      let (blocks, cache) := fillAll rest cache
      (block :: blocks, cache)

/-- What a report with a sketch comes to in a context. -/
def complete (sketched : Except Fault (List Sketch)) (c : Context σ) :
    Except Fault (List String) × Context σ :=
  match sketched with
  | .error f => (.error f, c)
  | .ok sketches =>
      (.ok (fillAll sketches c.cache).1, { c with cache := (fillAll sketches c.cache).2 })

/-- Blocks without annotations are filled in as they are. -/
theorem fillAll_texts
    (blocks : List String)
    (cache : Cache σ) :
    fillAll (blocks.map Sketch.text) cache = (blocks, cache) := by
  induction blocks with
  | nil => rfl
  | cons block rest ih => simp only [List.map_cons, fillAll, fill, ih]

/-- The sketch of a report that needs no annotations. -/
def ofReport (report : Reporting Unit) (s : Session) : Except Fault (List Sketch) :=
  (report (s, Context.idle)).1.map fun blocks => blocks.map Sketch.text

end Sketch

namespace Task

variable {σ τ : Type}

namespace Part

/-- The sketch of a part: it depends on what is seen of the session, and on whether the reference set is
in use. -/
def sketch (config : Configuration) (s : Session) (loaded : Bool) :
    Part → Except Fault (List Sketch)
  | .topSources => do
      let events ← Fault.plain s.tables.getEvents
      let rows := volumeRows Store.textLe (·.source) Uid.le (·.uid) s.now config.topN events
      Fault.plain (onlyTexts "src_ipaddr" (rows.map (·.key)))
      if rows.isEmpty then .ok [.text noMatchingData]
      else
        .ok
          [.table
            [("event_count", .right), ("src_ipaddr", .left), ("unique_uids", .right),
              ("period", .right), ("avg_per_hour", .right)]
            (rows.map fun r =>
              (r.key.toText, Decimal.groupedText r.events :: r.key.toText :: volumeCells r))]
  | .topUids => Sketch.ofReport (Task.topUids config) s
  | .sourcesBySuccess => Sketch.ofReport (Task.sourcesBySuccess config) s
  | .uidsBySuccess => Sketch.ofReport (Task.uidsBySuccess config) s
  | .openForeignSessions => do
      let events ← Fault.plain s.tables.getEvents
      let rows := openRows s.localNetworks config.topN events
      let uids ← Fault.plain (openUids s.localNetworks config.topN events)
      if rows.isEmpty then .ok [.text noMatchingData]
      else
        .ok
          [.table
            [("uid", .left), ("src_ipaddr", .left), ("live_sessions", .right),
              ("total_events", .right)]
            ((uids.zip rows).map fun (uid, r) =>
              (r.source.toText,
                [Decimal.text uid, r.source.toText, Decimal.groupedText r.live,
                  Decimal.groupedText r.total]))]
  | .foreignByAccount =>
      if !loaded then .ok [.text referenceUnavailable]
      else do
        let events ← Fault.plain s.tables.getEvents
        let reference ← Fault.plain s.getReference
        let rows := accountRows s.localNetworks reference config.topN events
        Fault.plain
          (onlyAddresses config.topN ((accountOpenings reference events).map (·.2.source)))
        if rows.isEmpty then .ok [.text noMatchingData]
        else
          .ok
            (.text (accountTable rows) ::
              rows.map fun r =>
                .account r.uid
                  ((foreignSourcesOf s.localNetworks r.uid events).map Store.Cell.toText))
  | .firewallBlocks => do
      let blocks ← Fault.plain s.tables.getEntities
      if blocks.any Option.isNone then
        .error (Fault.ofStore (.columnType .null 0 "ip_entity"))
      else
        let entities := (blocks.filterMap id).mergeSort Store.textLe
        Fault.plain (onlyTexts "ip_entity" entities)
        if entities.isEmpty then .ok [.text noMatchingData]
        else .ok [.table [("ip_entity", .left)] (entities.map fun e => (e.toText, [e.toText]))]
  | .countrySummary => .ok [.countries]

end Part

/-! ### Reports are fillings of their sketches -/

/-- What a report comes to: its outcome and its context, without its session. -/
def ending (report : Reporting σ) (s : Session) (c : Context σ) :
    Except Fault (List String) × Context σ :=
  ((report (s, c)).1, (report (s, c)).2.2)

theorem ending_onEvents
    (report : Session → List Event → Except Fault (List String))
    (s : Session)
    (c : Context σ) :
    ending (onEvents report) s c =
      Sketch.complete (Sketch.ofReport (onEvents report) s) c := by
  simp only [ending, Sketch.ofReport, onEvents, Session.read]
  cases s.tables.getEvents with
  | error e => rfl
  | ok events =>
      dsimp only
      cases report s.fixView events with
      | error f => rfl
      | ok blocks => simp [Except.map, Sketch.complete, Sketch.fillAll_texts]

theorem ending_topSources
    (config : Configuration)
    (s : Session)
    (c : Context σ) :
    ending (topSources config) s c =
      Sketch.complete (Part.topSources.sketch config s c.referenceLoaded) c := by
  have hnow : s.fixView.now = s.now := rfl
  simp only [ending, topSources, Part.sketch, Session.read, hnow]
  cases s.tables.getEvents with
  | error e => rfl
  | ok events =>
      simp only [Fault.plain, bind, Except.bind]
      cases onlyTexts "src_ipaddr" ((volumeRows Store.textLe (·.source) Uid.le (·.uid) s.now
          config.topN events).map (·.key)) with
      | error e => rfl
      | ok _ =>
          dsimp only
          split
          · rfl
          · rfl

theorem ending_openForeignSessions
    (config : Configuration)
    (s : Session)
    (c : Context σ) :
    ending (openForeignSessions config) s c =
      Sketch.complete (Part.openForeignSessions.sketch config s c.referenceLoaded) c := by
  have hnetworks : s.fixView.localNetworks = s.localNetworks := rfl
  simp only [ending, openForeignSessions, Part.sketch, Session.read, hnetworks]
  cases s.tables.getEvents with
  | error e => rfl
  | ok events =>
      simp only [Fault.plain, bind, Except.bind]
      cases openUids s.localNetworks config.topN events with
      | error e => rfl
      | ok uids =>
          dsimp only
          split
          · rfl
          · rfl

/-- The lists of several accounts are the fillings of their sketches. -/
theorem accountLists_eq_fillAll
    (networks : List Block)
    (events : List Event)
    (rows : List AccountRow)
    (cache : Cache σ) :
    accountLists networks events (rows.map (·.uid)) cache =
      Sketch.fillAll
        (rows.map fun r =>
          .account r.uid ((foreignSourcesOf networks r.uid events).map Store.Cell.toText)) cache := by
  induction rows generalizing cache with
  | nil => rfl
  | cons r rest ih =>
      simp only [List.map_cons, accountLists, Sketch.fillAll, ih]
      rfl

theorem ending_foreignByAccount
    (config : Configuration)
    (s : Session)
    (c : Context σ) :
    ending (foreignByAccount config) s c =
      Sketch.complete (Part.foreignByAccount.sketch config s c.referenceLoaded) c := by
  have hnetworks : s.fixView.localNetworks = s.localNetworks := rfl
  have hreference : s.fixView.getReference = s.getReference := rfl
  obtain ⟨cache, loaded, notices⟩ := c
  simp only [ending, foreignByAccount, Part.sketch, Session.read, hnetworks, hreference]
  cases loaded with
  | false => rfl
  | true =>
      simp only [Bool.not_true, Bool.false_eq_true, if_false]
      cases s.tables.getEvents with
      | error e => rfl
      | ok events =>
          cases s.getReference with
          | error e => rfl
          | ok reference =>
              simp only [Fault.plain, bind, Except.bind, accountLists_eq_fillAll]
              cases onlyAddresses config.topN
                  ((accountOpenings reference events).map (·.2.source)) with
              | error e => rfl
              | ok _ =>
                  dsimp only
                  split
                  · rfl
                  · rfl

theorem ending_firewallBlocks
    (config : Configuration)
    (s : Session)
    (c : Context σ) :
    ending firewallBlocks s c =
      Sketch.complete (Part.firewallBlocks.sketch config s c.referenceLoaded) c := by
  simp only [ending, firewallBlocks, Part.sketch, Session.read]
  cases s.tables.getEntities with
  | error e => rfl
  | ok blocks =>
      simp only [Fault.plain, bind, Except.bind]
      split
      · rfl
      · cases onlyTexts "ip_entity" ((blocks.filterMap id).mergeSort Store.textLe) with
        | error e => rfl
        | ok _ =>
            dsimp only
            split
            · rfl
            · rfl

theorem ending_countrySummary
    (s : Session)
    (c : Context σ) :
    ending countrySummary s c = Sketch.complete (.ok [.countries]) c := by
  simp only [ending, countrySummary, Sketch.complete, Sketch.fillAll, Sketch.fill,
    Sketch.countriesText]
  split
  · rfl
  · rfl

/-- Every part of the top counts is the filling of its sketch. -/
theorem ending_report
    (config : Configuration)
    (part : Part)
    (s : Session)
    (c : Context σ) :
    ending (part.report config) s c =
      Sketch.complete (part.sketch config s c.referenceLoaded) c := by
  cases part with
  | topSources => exact ending_topSources config s c
  | topUids => exact ending_onEvents _ s c
  | sourcesBySuccess => exact ending_onEvents _ s c
  | uidsBySuccess => exact ending_onEvents _ s c
  | openForeignSessions => exact ending_openForeignSessions config s c
  | foreignByAccount => exact ending_foreignByAccount config s c
  | firewallBlocks => exact ending_firewallBlocks config s c
  | countrySummary => exact ending_countrySummary s c

end Task
end AccessAudit
