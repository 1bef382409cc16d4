import AccessAudit.Proofs.Task.Verdict

/-!
# Failed tasks leave no trace

The report of a run consists of what each task contributes: the sections of its
body, or one line about its failure, or nothing.  A task that failed may be
taken out of the run: the other tasks come to the same, and the session, the
cache and the source of the lookups end in the same state.

Two runs are compared up to the notices in the log of the program, which no
task reads.
-/

namespace AccessAudit

open Store (Session)

namespace Task

variable {σ : Type}

/-! ### Notices make no difference -/

/-- States of a run that differ in the notices at most. -/
structure Alike (before after : Session × Context σ) : Prop where
  session : before.1 = after.1
  context : before.2.quiet = after.2.quiet

namespace Alike

variable {p q : Session × Context σ}

theorem cache
    (h : Alike p q) :
    p.2.cache = q.2.cache := by
  have hcache : p.2.quiet.cache = q.2.quiet.cache := by
    rw [h.context]
  exact hcache

theorem referenceLoaded
    (h : Alike p q) :
    p.2.referenceLoaded = q.2.referenceLoaded := by
  have hloaded : p.2.quiet.referenceLoaded = q.2.quiet.referenceLoaded := by
    rw [h.context]
  exact hloaded

theorem reads
    {α : Type}
    {r : Session × Context σ → α × (Session × Context σ)}
    (hr : Reads r)
    (h : Alike p q) :
    (r p).1 = (r q).1 ∧ (r p).2.2.quiet = (r q).2.2.quiet := by
  obtain ⟨s, c⟩ := p
  obtain ⟨s', d⟩ := q
  obtain ⟨rfl, hcd⟩ := h
  dsimp only at hcd
  constructor
  · rw [hr.answer s c, hr.answer s d, hcd]
  · rw [hr.context s c, hr.context s d, hcd]

theorem body
    (config : Configuration)
    (task : Task)
    (h : Alike p q) :
    (task.body config p).1 = (task.body config q).1 ∧
    (task.body config p).2.2.quiet = (task.body config q).2.2.quiet := by
  cases task with
  | dailyCounting => exact h.reads reads_dailyEventCount
  | ranking => exact h.reads (reads_topCounts config)
  | purging =>
      obtain ⟨s, c⟩ := p
      obtain ⟨s', d⟩ := q
      obtain ⟨rfl, hcd⟩ := h
      exact ⟨rfl, hcd⟩
  | compacting =>
      obtain ⟨s, c⟩ := p
      obtain ⟨s', d⟩ := q
      obtain ⟨rfl, hcd⟩ := h
      exact ⟨rfl, hcd⟩

theorem verdict
    (config : Configuration)
    (task : Task)
    (h : Alike p q) :
    task.verdict config p = task.verdict config q := by
  unfold Task.verdict
  rw [h.session]
  cases task.mode.enter q.1 with
  | error f => rfl
  | ok opened =>
      have hopened : Alike (opened, p.2) (opened, q.2) := ⟨rfl, h.context⟩
      dsimp only
      rw [(hopened.body config task).1]

/-- A task runs alike on states that are alike. -/
theorem run
    (config : Configuration)
    (task : Task)
    (h : Alike p q) :
    Alike (task.run config p).2 (task.run config q).2 := by
  have hverdict := h.verdict config task
  obtain ⟨s, c⟩ := p
  obtain ⟨s', d⟩ := q
  obtain ⟨rfl, hcd⟩ := h
  cases hd : task.verdict config (s, d) with
  | skipped =>
      rw [run_of_skipped hd, run_of_skipped (hverdict.trans hd)]
      exact ⟨rfl, hcd⟩
  | failed f =>
      rw [run_of_failed hd, run_of_failed (hverdict.trans hd)]
      exact ⟨rfl, hcd⟩
  | completed sections =>
      obtain ⟨opened, henter, hrun⟩ := run_of_completed hd
      obtain ⟨opened', henter', hrun'⟩ := run_of_completed (hverdict.trans hd)
      have hopened : opened' = opened := by
        rw [henter] at henter'
        cases henter'
        rfl
      subst hopened
      have hbody : Alike (opened', c) (opened', d) := ⟨rfl, hcd⟩
      rw [hrun, hrun']
      exact ⟨rfl, (hbody.body config task).2⟩

/-- Tasks that are run on states that are alike come to the same and end alike. -/
theorem runAll
    (config : Configuration)
    (tasks : List Task)
    (h : Alike p q) :
    verdicts config tasks p = verdicts config tasks q ∧
    Alike (Task.runAll config tasks p).2 (Task.runAll config tasks q).2 := by
  induction tasks generalizing p q with
  | nil => exact ⟨rfl, h⟩
  | cons task rest ih =>
      obtain ⟨hverdicts, hrest⟩ := ih (h.run config task)
      constructor
      · simp only [verdicts, h.verdict config task, hverdicts]
      · exact hrest

end Alike

/-! ### Runs of several tasks -/

/-- What a task adds to the report is what its verdict says. -/
theorem run_lines
    (config : Configuration)
    (task : Task)
    (state : Session × Context σ) :
    (task.run config state).1 = task.lines (task.verdict config state) := by
  obtain ⟨s, c⟩ := state
  cases h : task.verdict config (s, c) with
  | skipped =>
      rw [run_of_skipped h]
      rfl
  | failed f => rw [run_of_failed h]
  | completed sections =>
      obtain ⟨opened, -, hrun⟩ := run_of_completed h
      rw [hrun]
      rfl

/-- A task that fails leaves the state as it was, but for a notice. -/
theorem alike_of_failed
    {config : Configuration}
    {task : Task}
    {state : Session × Context σ}
    {f : Fault}
    (h : task.verdict config state = .failed f) :
    Alike (task.run config state).2 state := by
  obtain ⟨s, c⟩ := state
  rw [run_of_failed h]
  exact ⟨rfl, rfl⟩

theorem runAll_lines
    (config : Configuration)
    (tasks : List Task)
    (state : Session × Context σ) :
    (runAll config tasks state).1 =
      (verdicts config tasks state).flatMap fun entry => entry.1.lines entry.2 := by
  induction tasks generalizing state with
  | nil => rfl
  | cons task rest ih =>
      simp only [runAll, verdicts, List.flatMap_cons, run_lines, ih]

theorem runAll_append
    (config : Configuration)
    (before after : List Task)
    (state : Session × Context σ) :
    (runAll config (before ++ after) state).2 =
      (runAll config after (runAll config before state).2).2 := by
  induction before generalizing state with
  | nil => rfl
  | cons task rest ih => exact ih (task.run config state).2

theorem verdicts_append
    (config : Configuration)
    (before after : List Task)
    (state : Session × Context σ) :
    verdicts config (before ++ after) state =
      verdicts config before state ++ verdicts config after (runAll config before state).2 := by
  induction before generalizing state with
  | nil => rfl
  | cons task rest ih =>
      simp only [List.cons_append, verdicts, runAll, ih]

/-- The report of a run consists of what each task contributes, in order: the sections that its body
returned, or one line about its failure, or nothing for a task that is not enabled.  Taking a task that
failed out of the run changes neither what the other tasks come to, nor the session, nor the cache with
the state of its source, in which a source may keep every question that it was asked. -/
theorem runAll_erase_failed
    (config : Configuration)
    (tasks : List Task)
    (state : Session × Context σ) :
    (runAll config tasks state).1 =
      ((verdicts config tasks state).flatMap fun entry => entry.1.lines entry.2) ∧
    ∀ (before : List Task) (task : Task) (after : List Task) (f : Fault),
      tasks = before ++ task :: after →
      task.verdict config (runAll config before state).2 = .failed f →
      (∃ others,
        verdicts config tasks state =
          verdicts config before state ++ (task, .failed f) :: others ∧
        verdicts config (before ++ after) state = verdicts config before state ++ others) ∧
      (runAll config (before ++ after) state).2.1 = (runAll config tasks state).2.1 ∧
      (runAll config (before ++ after) state).2.2.cache = (runAll config tasks state).2.2.cache ∧
      (runAll config (before ++ after) state).2.2.referenceLoaded =
        (runAll config tasks state).2.2.referenceLoaded := by
  refine ⟨runAll_lines config tasks state, ?_⟩
  rintro before task after f rfl hfailed
  -- where the task has failed and where it is missing, the rest starts on states that are alike
  have hnoted := alike_of_failed hfailed
  obtain ⟨hverdicts, halike⟩ := hnoted.runAll config after
  have hrun : (runAll config (before ++ task :: after) state).2 =
      (runAll config after (task.run config (runAll config before state).2).2).2 := by
    rw [runAll_append]
    rfl
  refine ⟨⟨verdicts config after (runAll config before state).2, ?_, ?_⟩, ?_⟩
  · rw [verdicts_append]
    simp only [verdicts, hfailed, hverdicts]
  · exact verdicts_append config before after state
  · rw [hrun, runAll_append]
    exact ⟨halike.session.symm, halike.cache.symm, halike.referenceLoaded.symm⟩

/-- A log of one event, in a session that may not write, with a source that knows nothing and keeps
every question. -/
def guardedLog : Session × Context (List Address) :=
  ({ committed := ⟨some [⟨"203.0.113.5", .auth, .integer 1001, "2024-03-01 08:00:00"⟩], some []⟩
     limits := { queryOnly := true }
     now := 1709294400 },
   { cache := { ask := fun asked a => (.nothing, asked ++ [a]), source := [] } })

/-- Without the removal of events, which may not write, the top counts ask the same questions. -/
theorem guardedLog_same_questions :
    Task.purging.verdict { dryRun := false }
        (runAll { dryRun := false } [.dailyCounting] guardedLog).2 =
      .failed ((Fault.ofStore .readOnly).within (.removeEvents 10)) ∧
    (runAll { dryRun := false } [.dailyCounting, .ranking] guardedLog).2.2.cache.source =
      (runAll { dryRun := false } [.dailyCounting, .purging, .ranking]
        guardedLog).2.2.cache.source := by
  have hfailed :
      Task.purging.verdict { dryRun := false }
          (runAll { dryRun := false } [.dailyCounting] guardedLog).2 =
        .failed ((Fault.ofStore .readOnly).within (.removeEvents 10)) := by
    rfl
  have herased := (runAll_erase_failed { dryRun := false } [.dailyCounting, .purging, .ranking]
    guardedLog).2 [.dailyCounting] .purging [.ranking] _ rfl hfailed
  exact ⟨hfailed, congrArg Cache.source herased.2.2.1⟩

end Task
end AccessAudit
