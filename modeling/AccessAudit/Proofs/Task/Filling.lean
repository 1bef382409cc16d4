import AccessAudit.Proofs.Task.Annotation

/-!
# Runs of reports are fillings of sketches

The tasks that report leave the session as it is.  What they tell is a list of sketches that is made
from the session, filled in from the cache one after the other.  The cache is all that one task hands
on to the next.
-/

namespace AccessAudit

open Store (Session Event)

namespace Sketch

variable {σ : Type}

theorem fillAll_append
    (before after : List Sketch)
    (cache : Cache σ) :
    fillAll (before ++ after) cache =
      ((fillAll before cache).1 ++ (fillAll after (fillAll before cache).2).1,
        (fillAll after (fillAll before cache).2).2) := by
  induction before generalizing cache with
  | nil => rfl
  | cons sketch rest ih => simp only [List.cons_append, fillAll, ih]

/-- What was told, and the state after it, come from filling in sketches; the session and the use of the
reference set are as they were. -/
structure Fills (sketches : List Sketch) (s : Session) (c : Context σ)
    (told : List String × (Session × Context σ)) : Prop where
  lines : told.1 = (fillAll sketches c.cache).1
  session : told.2.1 = s
  cache : told.2.2.cache = (fillAll sketches c.cache).2
  referenceLoaded : told.2.2.referenceLoaded = c.referenceLoaded

theorem fills_nil
    (s : Session)
    (c : Context σ) :
    Fills [] s c ([], (s, c)) :=
  ⟨rfl, rfl, rfl, rfl⟩

/-- Lines that need no annotations, and a notice at most. -/
theorem fills_texts
    (lines : List String)
    (s : Session)
    {c d : Context σ}
    (hcache : d.cache = c.cache)
    (hloaded : d.referenceLoaded = c.referenceLoaded) :
    Fills (lines.map .text) s c (lines, (s, d)) := by
  refine ⟨?_, rfl, ?_, hloaded⟩
  · rw [fillAll_texts]
  · rw [fillAll_texts, hcache]

theorem Fills.append
    {before after : List Sketch}
    {s : Session}
    {c : Context σ}
    {first second : List String × (Session × Context σ)}
    (hfirst : Fills before s c first)
    (hsecond : Fills after s first.2.2 second) :
    Fills (before ++ after) s c (first.1 ++ second.1, second.2) := by
  refine ⟨?_, hsecond.session, ?_, ?_⟩
  · rw [fillAll_append, hfirst.lines, hsecond.lines, hfirst.cache]
  · rw [fillAll_append, hsecond.cache, hfirst.cache]
  · rw [hsecond.referenceLoaded, hfirst.referenceLoaded]

end Sketch

namespace Task

variable {σ τ : Type}

/-! ### Sketches and the session -/

/-- A sketch without annotations depends on what is seen of the session only. -/
theorem ofReport_sight
    {report : Reporting Unit}
    (hreport : Reads report)
    (s : Session) :
    Sketch.ofReport report s.sight = Sketch.ofReport report s := by
  have hidle : Context.idle.quiet = Context.idle := rfl
  simp only [Sketch.ofReport]
  rw [hreport.answer s, hreport.answer s.sight, hidle, Session.sight_sight]

theorem sketch_sight
    (config : Configuration)
    (part : Part)
    (s : Session)
    (loaded : Bool) :
    part.sketch config s.sight loaded = part.sketch config s loaded := by
  cases part with
  | topSources => rfl
  | topUids => exact ofReport_sight (reads_topUids config) s
  | sourcesBySuccess => exact ofReport_sight (reads_sourcesBySuccess config) s
  | uidsBySuccess => exact ofReport_sight (reads_uidsBySuccess config) s
  | openForeignSessions => rfl
  | foreignByAccount => rfl
  | firewallBlocks => rfl
  | countrySummary => rfl

theorem sketch_of_sight
    {s t : Session}
    (h : t.sight = s.sight)
    (config : Configuration)
    (part : Part)
    (loaded : Bool) :
    part.sketch config t loaded = part.sketch config s loaded := by
  rw [← sketch_sight config part t, h, sketch_sight]

/-! ### Sections -/

/-- The sketches of the sections of parts. -/
def partsSketch (config : Configuration) (s : Session) (loaded : Bool) (parts : List Part) :
    List Sketch :=
  parts.flatMap fun part => part.sketchLines (part.sketch config s loaded)

/-- A section is its part's sketch, filled in. -/
theorem inSection_eq_fillAll
    (config : Configuration)
    (part : Part)
    (s : Session)
    (c : Context σ) :
    let told := inSection part.heading part.subject (part.report config) (s, c)
    let filled :=
      Sketch.fillAll (part.sketchLines (part.sketch config s c.referenceLoaded)) c.cache
    told.1 = filled.1 ∧ told.2.2.cache = filled.2 ∧
      told.2.2.referenceLoaded = c.referenceLoaded := by
  have houtcome := congrArg Prod.fst (ending_report config part s c)
  have hcontext := congrArg Prod.snd (ending_report config part s c)
  simp only [ending] at houtcome hcontext
  cases hreport : part.report config (s, c) with
  | mk outcome after =>
      simp only [hreport] at houtcome hcontext
      simp only [inSection, hreport]
      cases hsketch : part.sketch config s c.referenceLoaded with
      | error f =>
          simp only [hsketch, Sketch.complete] at houtcome hcontext
          rw [houtcome]
          simp only [Part.sketchLines, Sketch.fillAll_texts, Context.note, hcontext, and_self, and_true]
          rfl
      | ok sketches =>
          simp only [hsketch, Sketch.complete] at houtcome hcontext
          rw [houtcome]
          simp only [Part.sketchLines, Sketch.fillAll, Sketch.fill, hcontext, and_self, and_true]
          rfl

theorem sectionsOf_eq_fillAll
    (config : Configuration)
    (parts : List Part)
    {s t : Session}
    (hsight : t.sight = s.sight)
    (c : Context σ) :
    let told := sectionsOf config parts (t, c)
    let filled := Sketch.fillAll (partsSketch config s c.referenceLoaded parts) c.cache
    told.1 = filled.1 ∧ told.2.2.cache = filled.2 ∧
      told.2.2.referenceLoaded = c.referenceLoaded := by
  induction parts generalizing t c with
  | nil => exact ⟨rfl, rfl, rfl⟩
  | cons part rest ih =>
      obtain ⟨hlines, hcache, hloaded⟩ := inSection_eq_fillAll config part t c
      have hafter := (reads_inSection (reads_report (σ := σ) config part) part.heading part.subject
        ).sight_session t c
      rw [hsight] at hafter
      have hsketch := sketch_of_sight hsight config part c.referenceLoaded
      obtain ⟨hrestLines, hrestCache, hrestLoaded⟩ :=
        ih hafter (inSection part.heading part.subject (part.report config) (t, c)).2.2
      simp only [partsSketch, List.flatMap_cons, Sketch.fillAll_append, ← hsketch]
      refine ⟨?_, ?_, ?_⟩
      · rw [← hlines, ← hcache]
        simp only [partsSketch, hloaded] at hrestLines
        simp only [sectionsOf, ← hrestLines]
      · rw [← hcache]
        simp only [partsSketch, hloaded] at hrestCache
        simp only [sectionsOf, ← hrestCache]
      · rw [← hloaded, ← hrestLoaded]
        rfl

/-- Where the parts can be told, the top counts are their sections; otherwise they fail. -/
theorem topCounts_of_shownParts
    (config : Configuration)
    (s : Session)
    (c : Context σ) :
    topCounts config (s, c) =
      match shownParts s with
      | .error f => (.error f, (s.fixView, c))
      | .ok parts =>
          (.ok (sectionsOf config parts (s.fixView, c)).1, (sectionsOf config parts (s.fixView, c)).2) := by
  have hcounted : countEvents s = ((countEvents s).1, s.fixView) := rfl
  unfold topCounts shownParts
  dsimp only
  rw [hcounted]
  rcases (countEvents s).1 with f | n
  · rfl
  · cases n with
    | succ n => rfl
    | zero =>
        simp only [countBlocks_fixView]
        rcases (countBlocks s).1 with f | n
        · rfl
        · cases n with
          | zero => rfl
          | succ n => rfl

/-! ### Tasks -/

/-- The sketches of a task that reports. -/
def reportSketch (config : Configuration) (s : Session) (loaded : Bool) : Task → List Sketch
  | .ranking => rankingSketch config s loaded
  | .dailyCounting => (Task.dailyCounting.run config (s, Context.idle)).1.map .text
  | .purging | .compacting => []

/-- The daily counts are the same in every context, and leave it alone but for a notice. -/
theorem dailyEventCount_context
    (s : Session)
    (c : Context σ)
    (d : Context τ) :
    (dailyEventCount (s, c)).1 = (dailyEventCount (s, d)).1 ∧
    (dailyEventCount (s, c)).2.2.cache = c.cache ∧
    (dailyEventCount (s, c)).2.2.referenceLoaded = c.referenceLoaded := by
  have hcounted : countEvents s = ((countEvents s).1, s.fixView) := rfl
  unfold dailyEventCount
  dsimp only
  rw [hcounted]
  rcases (countEvents s).1 with f | n
  · exact ⟨rfl, rfl, rfl⟩
  · cases n with
    | zero => exact ⟨rfl, rfl, rfl⟩
    | succ n =>
        simp only [inSection, onEvents, Session.read]
        cases s.fixView.tables.getEvents with
        | error e => exact ⟨rfl, rfl, rfl⟩
        | ok events =>
            dsimp only
            cases dailyTable s.fixView.fixView.now events with
            | error f => exact ⟨rfl, rfl, rfl⟩
            | ok blocks => exact ⟨rfl, rfl, rfl⟩

theorem fills_dailyCounting
    (config : Configuration)
    (s : Session)
    (c : Context σ) :
    Sketch.Fills (reportSketch config s c.referenceLoaded .dailyCounting) s c
      (Task.dailyCounting.run config (s, c)) := by
  have hsession : (Task.dailyCounting.run config (s, c)).2.1 = s := session_run_of_ne nofun
  have hverdict : Task.dailyCounting.verdict config (s, c) =
      Task.dailyCounting.verdict config (s, Context.idle) := by
    unfold verdict
    cases Task.dailyCounting.mode.enter s with
    | error f => rfl
    | ok opened =>
        simp only [body, (dailyEventCount_context opened c Context.idle).1]
  have hlines : (Task.dailyCounting.run config (s, c)).1 =
      (Task.dailyCounting.run config (s, Context.idle)).1 := by
    rw [run_lines, run_lines, hverdict]
  have hcontext : (Task.dailyCounting.run config (s, c)).2.2.cache = c.cache ∧
      (Task.dailyCounting.run config (s, c)).2.2.referenceLoaded = c.referenceLoaded := by
    cases h : Task.dailyCounting.verdict config (s, c) with
    | skipped =>
        rw [run_of_skipped h]
        exact ⟨rfl, rfl⟩
    | failed f =>
        rw [run_of_failed h]
        exact ⟨rfl, rfl⟩
    | completed sections =>
        obtain ⟨opened, -, hrun⟩ := run_of_completed h
        rw [hrun]
        exact (dailyEventCount_context opened c Context.idle).2
  have hfills := Sketch.fills_texts (Task.dailyCounting.run config (s, Context.idle)).1 s
    hcontext.1 hcontext.2
  have htold : Task.dailyCounting.run config (s, c) =
      ((Task.dailyCounting.run config (s, Context.idle)).1,
        (s, (Task.dailyCounting.run config (s, c)).2.2)) :=
    Prod.ext hlines (Prod.ext hsession rfl)
  rw [htold]
  exact hfills

theorem fills_ranking
    (config : Configuration)
    (s : Session)
    (c : Context σ) :
    Sketch.Fills (reportSketch config s c.referenceLoaded .ranking) s c
      (Task.ranking.run config (s, c)) := by
  have hsession : (Task.ranking.run config (s, c)).2.1 = s := session_run_of_ne nofun
  cases henabled : Task.ranking.isEnabled config with
  | false =>
      have hskipped : Task.ranking.verdict config (s, c) = .skipped := by
        simp [verdict, henabled]
      have hsketch : reportSketch config s c.referenceLoaded .ranking = [] := by
        simp [reportSketch, rankingSketch, henabled]
      rw [run_of_skipped hskipped, hsketch]
      exact Sketch.fills_nil s c
  | true =>
      cases henter : Task.ranking.mode.enter s with
      | error f =>
          have hfailed : Task.ranking.verdict config (s, c) = .failed f := by
            simp [verdict, henabled, henter]
          have hsketch : reportSketch config s c.referenceLoaded .ranking =
              (Task.ranking.lines (.failed f)).map .text := by
            simp [reportSketch, rankingSketch, henabled, henter]
          rw [run_of_failed hfailed, hsketch]
          exact Sketch.fills_texts _ s rfl rfl
      | ok opened =>
          have hbody := topCounts_of_shownParts config opened c
          cases hparts : shownParts opened with
          | error f =>
              simp only [hparts] at hbody
              have hfailed : Task.ranking.verdict config (s, c) = .failed f := by
                simp [verdict, henabled, henter, body, hbody]
              have hsketch : reportSketch config s c.referenceLoaded .ranking =
                  (Task.ranking.lines (.failed f)).map .text := by
                simp [reportSketch, rankingSketch, henabled, henter, hparts]
              rw [run_of_failed hfailed, hsketch]
              exact Sketch.fills_texts _ s rfl rfl
          | ok parts =>
              simp only [hparts] at hbody
              have hcompleted : Task.ranking.verdict config (s, c) =
                  .completed (sectionsOf config parts (opened.fixView, c)).1 := by
                simp [verdict, henabled, henter, body, hbody]
              have hsketch : reportSketch config s c.referenceLoaded .ranking =
                  partsSketch config opened c.referenceLoaded parts := by
                simp [reportSketch, rankingSketch, partsSketch, henabled, henter, hparts]
              obtain ⟨opened', henter', hrun⟩ := run_of_completed hcompleted
              obtain rfl : opened = opened' := by
                rw [henter] at henter'
                exact Except.ok.inj henter'
              obtain ⟨hlines, hcache, hloaded⟩ :=
                sectionsOf_eq_fillAll config parts opened.sight_fixView c
              rw [hrun] at hsession ⊢
              rw [hsketch]
              refine ⟨hlines, hsession, ?_, ?_⟩
              · simpa only [body, hbody] using hcache
              · simpa only [body, hbody] using hloaded

/-- A task that reports. -/
def IsReport (task : Task) : Prop :=
  task = .dailyCounting ∨ task = .ranking

/-- A task that reports is its sketches, filled in. -/
theorem fills_run
    (config : Configuration)
    {task : Task}
    (htask : task.IsReport)
    (s : Session)
    (c : Context σ) :
    Sketch.Fills (reportSketch config s c.referenceLoaded task) s c (task.run config (s, c)) := by
  rcases htask with rfl | rfl
  · exact fills_dailyCounting config s c
  · exact fills_ranking config s c

/-- A run of tasks that report is their sketches, filled in one after the other. -/
theorem fills_runAll
    (config : Configuration)
    {tasks : List Task}
    (htasks : ∀ task ∈ tasks, task.IsReport)
    (s : Session)
    (c : Context σ) :
    Sketch.Fills (tasks.flatMap (reportSketch config s c.referenceLoaded)) s c
      (runAll config tasks (s, c)) := by
  induction tasks generalizing c with
  | nil => exact Sketch.fills_nil s c
  | cons task rest ih =>
      have hfirst := fills_run config (htasks task List.mem_cons_self) s c
      have hrest := ih (fun other hmem => htasks other (List.mem_cons_of_mem task hmem))
        (task.run config (s, c)).2.2
      rw [hfirst.referenceLoaded] at hrest
      have hstate : (task.run config (s, c)).2 = (s, (task.run config (s, c)).2.2) :=
        Prod.ext hfirst.session rfl
      simp only [List.flatMap_cons, runAll]
      rw [hstate]
      exact hfirst.append hrest

end Task
end AccessAudit
