import AccessAudit.Proofs.Basic
import AccessAudit.Proofs.Store.Grouping
import AccessAudit.Proofs.Task.Failure
import AccessAudit.Proofs.Task.Isolation

/-!
# Lookups reach nothing but annotations

What the top counts report is a list of sketches that are made from the session
alone, each filled in from the cache.  Whatever the sources of two runs answer, the
two reports show the same sketches: the same headings and failures at the same
places, the same tables but for the columns of annotations, and the same addresses
under each account, which may only be gathered in another way.
-/

namespace AccessAudit

open Store (Session Event)

/-! ### Headings with items -/

/-- A heading with items under it, each on a line of its own that is indented further. -/
def itemized (heading : String) (items : List String) : String :=
  heading ++ String.join (items.map ("\n        - " ++ ·))

theorem bulletList_eq
    (heading : String)
    (items : List String) :
    bulletList heading items = itemized heading items := by
  unfold bulletList itemized
  induction items generalizing heading with
  | nil => simp
  | cons item rest ih =>
      rw [List.foldl_cons, ih, List.map_cons, String.join_cons]
      simp only [String.append_assoc]

/-! ### Blocks that show a sketch -/

namespace Sketch

variable {σ : Type}

/-- A block shows a sketch if it is the sketch with annotations of whatever kind: the columns of
annotations may hold any records, and the addresses of an account may be grouped under any labels. -/
def Shows : Sketch → String → Prop
  | .text block, shown => shown = block
  | .table columns rows, shown =>
      ∃ records : List Record,
        records.length = rows.length ∧
        shown =
          (Task.tableOf (columns ++ Task.orgColumns)
            (List.zipWith (fun row r => row.2 ++ Task.orgCells r) rows records)).render
  | .account uid sources, shown =>
      ∃ groups : List (String × List String),
        (groups.flatMap (·.2)).Perm sources ∧
        shown =
          bulletList
            ("    - uid \"" ++ Decimal.text uid ++ "\", sessions opened from foreign IPs:")
            (groups.map fun (label, members) => label ++ ": " ++ String.intercalate ", " members)
  | .countries, shown => ∃ counts, shown = countriesText counts

theorem length_annotateAll
    (texts : List String)
    (cache : Cache σ) :
    (cache.annotateAll texts).1.length = texts.length := by
  induction texts generalizing cache with
  | nil => rfl
  | cons text rest ih => simp [Cache.annotateAll, ih]

theorem annotatedTable_fst
    (columns : List (String × Align))
    (rows : List (String × List String))
    (cache : Cache σ) :
    (Task.annotatedTable columns rows cache).1 =
      (Task.tableOf (columns ++ Task.orgColumns)
        (List.zipWith (fun row r => row.2 ++ Task.orgCells r) rows
          (cache.annotateAll (rows.map (·.1))).1)).render := by
  simp only [Task.annotatedTable, List.map_zip_eq_zipWith]
  rfl

/-- A table of rows, each beside the record of its address. -/
theorem annotatedTable_map
    {β : Type}
    (columns : List (String × Align))
    (address : β → String)
    (cells : β → List String)
    (rows : List β)
    (cache : Cache σ) :
    Task.annotatedTable columns (rows.map fun r => (address r, cells r)) cache =
      ((Task.tableOf (columns ++ Task.orgColumns)
          (List.zipWith (fun r record => cells r ++ Task.orgCells record) rows
            (cache.annotateAll (rows.map address)).1)).render,
        (cache.annotateAll (rows.map address)).2) := by
  have haddresses : (rows.map fun r => (address r, cells r)).map (·.1) = rows.map address := by
    simp only [List.map_map, Function.comp_def]
  refine Prod.ext ?_ ?_
  · rw [annotatedTable_fst, haddresses, List.zipWith_map_left]
  · rw [← haddresses]
    rfl

/-- The list of an account's addresses shows each of them in one group. -/
theorem shows_account
    (uid : Int)
    (sources labels : List String)
    (h : labels.length = sources.length) :
    (account uid sources).Shows (accountText uid (labels.zip sources)) := by
  let gathered := Store.groups Store.textLe (·.1) (labels.zip sources)
  refine ⟨gathered.map fun group => (group.1, group.2.map (·.2)), ?_, ?_⟩
  · have hperm := (Store.perm_flatMap_groups Store.textLe (·.1) (labels.zip sources)).map (·.2)
    have hsources : (labels.zip sources).map (·.2) = sources :=
      List.map_snd_zip (Nat.le_of_eq h.symm)
    rw [hsources, List.map_flatMap] at hperm
    rw [List.flatMap_map]
    exact hperm
  · simp only [accountText, Task.orgLines, List.map_map]
    rfl

/-- A sketch that is filled in is shown by its block. -/
theorem shows_fill
    (sketch : Sketch)
    (cache : Cache σ) :
    sketch.Shows (sketch.fill cache).1 := by
  cases sketch with
  | text block => rfl
  | countries => exact ⟨_, rfl⟩
  | table columns rows =>
      have hlength : (cache.annotateAll (rows.map (·.1))).1.length = rows.length := by
        rw [length_annotateAll, List.length_map]
      simp only [fill, annotatedTable_fst, Shows]
      exact ⟨_, hlength, rfl⟩
  | account uid sources =>
      simp only [fill]
      refine shows_account uid sources _ ?_
      rw [List.length_map, length_annotateAll]

theorem shows_fillAll
    (sketches : List Sketch)
    (cache : Cache σ) :
    List.Forall₂ Shows sketches (fillAll sketches cache).1 := by
  induction sketches generalizing cache with
  | nil => exact .nil
  | cons sketch rest ih => exact .cons (sketch.shows_fill cache) (ih (sketch.fill cache).2)

/-! ### Headings and failures -/

/-- A block that is a heading or tells of a failure; nothing for any other block. -/
def announced (block : String) : Option String :=
  if "## ".toList <+: block.toList ∨ "ERROR:  ".toList <+: block.toList then some block else none

theorem announced_of_head
    {block : String}
    (first : Char)
    (h : block.toList.head? = some first)
    (hheading : first ≠ '#')
    (herror : first ≠ 'E') :
    announced block = none := by
  refine if_neg ?_
  rintro (⟨rest, hrest⟩ | ⟨rest, hrest⟩)
  · rw [← hrest] at h
    cases h
    exact hheading rfl
  · rw [← hrest] at h
    cases h
    exact herror rfl

theorem head?_of_mem_lines
    {t : Table}
    {line : List Char}
    (h : line ∈ t.lines) :
    line.head? = some '|' := by
  have hrow : ∀ {row}, line ∈ Table.rowLines t.layout row → line.head? = some '|' := by
    intro row hmem
    obtain ⟨i, -, rfl⟩ := List.mem_map.mp hmem
    rfl
  rcases List.mem_append.mp h with h | h
  · exact hrow h
  · rcases List.mem_cons.mp h with rfl | h
    · rfl
    · obtain ⟨row, -, hmem⟩ := List.mem_flatMap.mp h
      exact hrow hmem

/-- A table starts with a bar. -/
theorem head?_render
    (t : Table) :
    t.render.toList.head? = some '|' := by
  rw [Table.render, String.toList_ofList]
  cases hlines : t.lines with
  | nil => simp [Table.lines] at hlines
  | cons line rest =>
      have hmem : line ∈ t.lines := by simp [hlines]
      have hfirst := head?_of_mem_lines hmem
      cases rest with
      | nil => simpa using hfirst
      | cons next rest => simp [List.intercalate, List.intersperse, hfirst]

theorem render_ne_noMatchingData
    (t : Table) :
    t.render ≠ noMatchingData := by
  intro heq
  have hhead := head?_render t
  rw [heq] at hhead
  exact absurd hhead (by decide)

theorem announced_render
    (t : Table) :
    announced t.render = none :=
  announced_of_head '|' (head?_render t) (by decide) (by decide)

theorem prefix_bulletList
    (intro : String)
    (items : List String) :
    intro.toList <+: (bulletList intro items).toList := by
  rw [bulletList_eq, itemized, String.toList_append]
  exact List.prefix_append _ _

/-- The list of an account's addresses is indented. -/
theorem announced_bulletList
    (intro : String)
    (items : List String) :
    announced (bulletList ("    - uid \"" ++ intro) items) = none := by
  obtain ⟨rest, hrest⟩ := prefix_bulletList ("    - uid \"" ++ intro) items
  refine announced_of_head ' ' ?_ (by decide) (by decide)
  rw [← hrest, String.toList_append]
  rfl

theorem announced_countriesText
    (counts : List (String × Nat)) :
    announced (countriesText counts) = none := by
  unfold countriesText
  split
  · decide
  · exact announced_render _

/-- What the block of a sketch announces, whatever it is filled in with. -/
def announcement : Sketch → Option String
  | .text block => announced block
  | .table _ _ | .account _ _ | .countries => none

theorem Shows.announced_eq
    {sketch : Sketch}
    {shown : String}
    (h : sketch.Shows shown) :
    announced shown = sketch.announcement := by
  cases sketch with
  | text block =>
      cases h
      rfl
  | table columns rows =>
      obtain ⟨records, -, rfl⟩ := h
      exact announced_render _
  | account uid sources =>
      obtain ⟨groups, -, rfl⟩ := h
      rw [String.append_assoc]
      exact announced_bulletList _ _
  | countries =>
      obtain ⟨counts, rfl⟩ := h
      exact announced_countriesText counts

/-- Annotations neither make a heading or a failure nor hide one. -/
theorem map_announced_eq
    {sketches : List Sketch}
    {shown : List String}
    (h : List.Forall₂ Shows sketches shown) :
    shown.map announced = sketches.map announcement := by
  induction h with
  | nil => rfl
  | cons hfirst hrest ih => simp only [List.map_cons, hfirst.announced_eq, ih]

/-- Lines without annotations are shown as they are. -/
theorem shows_texts
    (blocks : List String) :
    List.Forall₂ Shows (blocks.map text) blocks := by
  have h := shows_fillAll (blocks.map text) Context.idle.cache
  rwa [fillAll_texts] at h

end Sketch

namespace Task

variable {σ τ : Type}

/-- The sketches of a part's section. -/
def Part.sketchLines (part : Part) : Except Fault (List Sketch) → List Sketch
  | .ok sketches => .text part.heading :: sketches
  | .error f => (part.lines (.error f)).map .text

/-- What a run of the top counts adds to the report, as sketches that are made from the session and from
whether the reference set is in use. -/
def rankingSketch (config : Configuration) (s : Session) (loaded : Bool) : List Sketch :=
  if !Task.ranking.isEnabled config then []
  else
    match Task.ranking.mode.enter s with
    | .error f => (Task.ranking.lines (.failed f)).map .text
    | .ok opened =>
        match shownParts opened with
        | .error f => (Task.ranking.lines (.failed f)).map .text
        | .ok parts =>
            parts.flatMap fun part => part.sketchLines (part.sketch config opened loaded)

/-- The section of a part shows its sketch. -/
theorem shows_lines
    (config : Configuration)
    (part : Part)
    (s : Session)
    (c : Context σ) :
    List.Forall₂ Sketch.Shows
      (part.sketchLines (part.sketch config s c.referenceLoaded))
      (part.lines (part.report config (s, c)).1) := by
  have houtcome := congrArg Prod.fst (ending_report config part s c)
  simp only [ending] at houtcome
  rw [houtcome]
  cases part.sketch config s c.referenceLoaded with
  | error f => exact Sketch.shows_texts _
  | ok sketches => exact .cons rfl (Sketch.shows_fillAll sketches c.cache)

/-- No part changes whether the reference set is in use. -/
theorem referenceLoaded_report
    (config : Configuration)
    (part : Part)
    (s : Session)
    (c : Context σ) :
    (part.report config (s, c)).2.2.referenceLoaded = c.referenceLoaded := by
  have hcontext := congrArg Prod.snd (ending_report config part s c)
  simp only [ending] at hcontext
  rw [hcontext]
  cases part.sketch config s c.referenceLoaded with
  | error f => rfl
  | ok sketches => rfl

theorem shows_sectionsAlone
    (config : Configuration)
    (parts : List Part)
    (s : Session)
    (c : Context σ) :
    List.Forall₂ Sketch.Shows
      (parts.flatMap fun part => part.sketchLines (part.sketch config s c.referenceLoaded))
      (sectionsAlone config parts s c) := by
  induction parts generalizing c with
  | nil => exact .nil
  | cons part rest ih =>
      have hrest := ih (part.report config (s, c)).2.2
      rw [referenceLoaded_report] at hrest
      exact List.rel_append (shows_lines config part s c) hrest

/-- A run of the top counts shows its sketches. -/
theorem shows_ranking
    (config : Configuration)
    (s : Session)
    (c : Context σ) :
    List.Forall₂ Sketch.Shows
      (rankingSketch config s c.referenceLoaded) (Task.ranking.run config (s, c)).1 := by
  rw [run_lines]
  unfold rankingSketch verdict
  split
  · exact .nil
  · cases Task.ranking.mode.enter s with
    | error f => exact Sketch.shows_texts _
    | ok opened =>
        simp only [body, topCounts_outcome]
        cases shownParts opened with
        | error f => exact Sketch.shows_texts _
        | ok parts => exact shows_sectionsAlone config parts opened c

/-! ### What the parts are sketched as -/

/-- A part without annotations reports the same in every context. -/
theorem report_eq_of_text
    (config : Configuration)
    {part : Part}
    (hpart : part ∈ [Part.topUids, .sourcesBySuccess, .uidsBySuccess])
    (s : Session)
    (c : Context σ)
    (d : Context τ) :
    (part.report config (s, c)).1 = (part.report config (s, d)).1 := by
  have hevents : ∀ report : Session → List Event → Except Fault (List String),
      (onEvents (σ := σ) report (s, c)).1 = (onEvents (σ := τ) report (s, d)).1 := by
    intro report
    simp only [onEvents, Session.read]
    cases s.tables.getEvents <;> rfl
  simp only [List.mem_cons, List.not_mem_nil, or_false] at hpart
  rcases hpart with rfl | rfl | rfl
  · exact hevents _
  · exact hevents _
  · exact hevents _

/-- A part that lists addresses or blocks is sketched as one table, if there is anything to list. -/
theorem sketch_of_table
    {config : Configuration}
    {part : Part}
    (hpart : part ∈ [Part.topSources, .openForeignSessions, .firewallBlocks])
    {s : Session}
    {loaded : Bool}
    {sketches : List Sketch}
    (h : part.sketch config s loaded = .ok sketches) :
    sketches = [.text noMatchingData] ∨ ∃ columns rows, sketches = [.table columns rows] := by
  simp only [List.mem_cons, List.not_mem_nil, or_false] at hpart
  rcases hpart with rfl | rfl | rfl
  · obtain ⟨events, -, h⟩ := exists_of_bind_eq_ok h
    obtain ⟨_, -, h⟩ := exists_of_bind_eq_ok h
    split at h
    · cases h
      exact Or.inl rfl
    · cases h
      exact Or.inr ⟨_, _, rfl⟩
  · obtain ⟨events, -, h⟩ := exists_of_bind_eq_ok h
    obtain ⟨uids, -, h⟩ := exists_of_bind_eq_ok h
    split at h
    · cases h
      exact Or.inl rfl
    · cases h
      exact Or.inr ⟨_, _, rfl⟩
  · obtain ⟨blocks, -, h⟩ := exists_of_bind_eq_ok h
    split at h
    · cases h
    · obtain ⟨_, -, h⟩ := exists_of_bind_eq_ok h
      split at h
      · cases h
        exact Or.inl rfl
      · cases h
        exact Or.inr ⟨_, _, rfl⟩

/-- The part about accounts is sketched as one block, and the addresses of the accounts below it. -/
theorem sketch_foreignByAccount
    {config : Configuration}
    {s : Session}
    {loaded : Bool}
    {sketches : List Sketch}
    (h : Part.foreignByAccount.sketch config s loaded = .ok sketches) :
    ∃ (summary : String) (accounts : List (Int × List String)),
      sketches = .text summary :: accounts.map fun account => .account account.1 account.2 := by
  simp only [Part.sketch] at h
  split at h
  · cases h
    exact ⟨_, [], rfl⟩
  · obtain ⟨events, -, h⟩ := exists_of_bind_eq_ok h
    obtain ⟨reference, -, h⟩ := exists_of_bind_eq_ok h
    obtain ⟨_, -, h⟩ := exists_of_bind_eq_ok h
    split at h
    · cases h
      exact ⟨_, [], rfl⟩
    · cases h
      let rows := accountRows s.localNetworks reference config.topN events
      refine
        ⟨accountTable rows,
          rows.map fun r =>
            (r.uid, (foreignSourcesOf s.localNetworks r.uid events).map Store.Cell.toText),
          ?_⟩
      rw [List.map_map]
      rfl

/-- Two runs of the top counts on one session, with two sources that may answer anything at any time, or
know nothing.  They leave that session and show the same sketches, so that nothing but annotations tells
them apart. -/
theorem ranking_annotations_only
    (config : Configuration)
    (s : Session)
    (c : Context σ)
    (d : Context τ)
    (hloaded : c.referenceLoaded = d.referenceLoaded) :
    let p := Task.ranking.run config (s, c)
    let q := Task.ranking.run config (s, d)
    let sketches := rankingSketch config s c.referenceLoaded
    -- every block of either report shows the sketch at its place
    List.Forall₂ Sketch.Shows sketches p.1 ∧
    List.Forall₂ Sketch.Shows sketches q.1 ∧
    -- so there are as many of them, with the headings and failures of the sketches
    p.1.length = q.1.length ∧
    p.1.map Sketch.announced = sketches.map Sketch.announcement ∧
    q.1.map Sketch.announced = sketches.map Sketch.announcement ∧
    -- neither run changes the session
    p.2.1 = s ∧
    q.2.1 = s ∧
    -- the volume of user ids and the success rates are the same text
    (∀ part ∈ [Part.topUids, .sourcesBySuccess, .uidsBySuccess],
      ∀ (t : Session) (c' : Context σ) (d' : Context τ),
        (part.report config (t, c')).1 = (part.report config (t, d')).1) ∧
    -- addresses, open sessions and blocks are sketched as one table each
    (∀ part ∈ [Part.topSources, .openForeignSessions, .firewallBlocks],
      ∀ (t : Session) (loaded : Bool) (sketched : List Sketch),
        part.sketch config t loaded = .ok sketched →
        sketched = [.text noMatchingData] ∨ ∃ columns rows, sketched = [.table columns rows]) ∧
    -- and the accounts as a summary and the addresses of each account
    (∀ (t : Session) (loaded : Bool) (sketched : List Sketch),
      Part.foreignByAccount.sketch config t loaded = .ok sketched →
      ∃ (summary : String) (accounts : List (Int × List String)),
        sketched = .text summary :: accounts.map fun account => .account account.1 account.2) := by
  intro p q sketches
  have hp : List.Forall₂ Sketch.Shows sketches p.1 := shows_ranking config s c
  have hq : List.Forall₂ Sketch.Shows sketches q.1 := by
    simp only [sketches, hloaded]
    exact shows_ranking config s d
  refine ⟨hp, hq, ?_, Sketch.map_announced_eq hp, Sketch.map_announced_eq hq,
    session_run_of_ne nofun, session_run_of_ne nofun, ?_, ?_, ?_⟩
  · rw [← hp.length_eq, ← hq.length_eq]
  · intro part hpart t c' d'
    exact report_eq_of_text config hpart t c' d'
  · intro part hpart t loaded sketched h
    exact sketch_of_table hpart h
  · intro t loaded sketched h
    exact sketch_foreignByAccount h

/-- An empty log and one blocked address. -/
def blockedOnly : Session :=
  { committed := ⟨some [], some [some "192.0.2.1"]⟩
    now := 1709294400 }

/-- A source that names one network for every address, in words that look like a failure. -/
def forgingSource : Context Unit :=
  { cache :=
      { ask := fun _ _ => (.record ⟨"192.0.2.0/24", "US", "ERROR:  Failed to produce a report"⟩, ())
        source := () } }

/-- Its words do not pass for a failure: the report has the headings that it has without any source, and
is another report only in the annotations. -/
theorem forgingSource_announces_nothing :
    forgingSource.referenceLoaded = Context.idle.referenceLoaded ∧
    (Task.ranking.run {} (blockedOnly, forgingSource)).1 ≠
      (Task.ranking.run {} (blockedOnly, Context.idle)).1 ∧
    (Task.ranking.run {} (blockedOnly, forgingSource)).1.map Sketch.announced =
      [some "## Active firewall blocks", none, some "## Countries of origin", none] := by
  refine ⟨rfl, ?_, ?_⟩
  · decide +kernel
  · have h := ranking_annotations_only {} blockedOnly forgingSource Context.idle rfl
    rw [h.2.2.2.1]
    decide +kernel

end Task
end AccessAudit
