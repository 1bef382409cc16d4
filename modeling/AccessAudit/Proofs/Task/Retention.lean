import AccessAudit.Proofs.Task.Verdict

/-!
# What a run removes from the database

The only trace that a run can leave in a session is that of the removal of
expired events, and only outside a dry run.  Removing them twice is removing them
once, so a run of any length leaves one of two sessions: the one it began with, or
that one without its expired events.  Which one it is can be read off the
verdicts.
-/

namespace AccessAudit

open Store (Session Event)

/-- Removing expired events again removes nothing more: the clock stands still. -/
theorem Store.Session.purged_purged
    (days : Nat)
    (s : Session) :
    (s.purged days).purged days = s.purged days := by
  cases hevents : s.committed.events with
  | none => simp [purged, hevents]
  | some events => simp [purged, hevents, List.filter_filter]

namespace Task

variable {σ : Type}

/-- Among these verdicts is that of a removal of expired events whose effect is kept. -/
def Purges (config : Configuration) (entries : List (Task × Verdict)) : Prop :=
  config.dryRun = false ∧ config.maintain = true ∧
    ∃ sections, (Task.purging, Verdict.completed sections) ∈ entries

theorem purges_append
    (config : Configuration)
    (before after : List (Task × Verdict)) :
    Purges config (before ++ after) ↔ Purges config before ∨ Purges config after := by
  constructor
  · rintro ⟨hdry, hmaintain, sections, hmem⟩
    rcases List.mem_append.mp hmem with h | h
    · exact Or.inl ⟨hdry, hmaintain, sections, h⟩
    · exact Or.inr ⟨hdry, hmaintain, sections, h⟩
  · rintro (⟨hdry, hmaintain, sections, h⟩ | ⟨hdry, hmaintain, sections, h⟩)
    · exact ⟨hdry, hmaintain, sections, List.mem_append_left _ h⟩
    · exact ⟨hdry, hmaintain, sections, List.mem_append_right _ h⟩

/-- A task with a verdict other than completion purges nothing. -/
theorem not_purges_of_incomplete
    {config : Configuration}
    {task : Task}
    {verdict : Verdict}
    (h : ∀ sections, verdict ≠ .completed sections) :
    ¬Purges config [(task, verdict)] := by
  rintro ⟨-, -, sections, hmem⟩
  have hentry := List.mem_singleton.mp hmem
  exact h sections (congrArg Prod.snd hentry).symm

/-- How tasks with verdicts take one session to another. -/
def Retains (config : Configuration) (entries : List (Task × Verdict)) (s after : Session) : Prop :=
  (Purges config entries ∧ after = s.purged config.purgeDays) ∨
  (¬Purges config entries ∧ after = s)

namespace Retains

variable {config : Configuration} {before after : List (Task × Verdict)} {s t u : Session}

/-- The effects of tasks one after the other make up the effect of all of them. -/
theorem append
    (hst : Retains config before s t)
    (htu : Retains config after t u) :
    Retains config (before ++ after) s u := by
  rcases hst with ⟨hbefore, rfl⟩ | ⟨hbefore, rfl⟩
  · have hpurges : Purges config (before ++ after) :=
      (purges_append config before after).mpr (Or.inl hbefore)
    rcases htu with ⟨-, rfl⟩ | ⟨-, rfl⟩
    · exact Or.inl ⟨hpurges, Session.purged_purged config.purgeDays s⟩
    · exact Or.inl ⟨hpurges, rfl⟩
  · rcases htu with ⟨hafter, rfl⟩ | ⟨hafter, rfl⟩
    · exact Or.inl ⟨(purges_append config before after).mpr (Or.inr hafter), rfl⟩
    · refine Or.inr ⟨?_, rfl⟩
      intro h
      rcases (purges_append config before after).mp h with h | h
      · exact hbefore h
      · exact hafter h

end Retains

/-- A task that completes leaves the session as it was, or purged. -/
theorem retains_kept
    {config : Configuration}
    {task : Task}
    {sections : List String}
    (henabled : task.isEnabled config = true)
    (s : Session) :
    Retains config [(task, .completed sections)] s (task.kept config s) := by
  unfold kept
  by_cases hpurging : task = .purging ∧ config.dryRun = false
  · rw [if_pos hpurging]
    obtain ⟨rfl, hdry⟩ := hpurging
    exact Or.inl ⟨⟨hdry, henabled, sections, List.mem_singleton.mpr rfl⟩, rfl⟩
  · rw [if_neg hpurging]
    refine Or.inr ⟨?_, rfl⟩
    rintro ⟨hdry, -, sections', hmem⟩
    have hentry := List.mem_singleton.mp hmem
    exact hpurging ⟨(congrArg Prod.fst hentry).symm, hdry⟩

/-- What one task does to the session can be read off its verdict. -/
theorem retains_run
    (config : Configuration)
    (task : Task)
    (state : Session × Context σ) :
    Retains config [(task, task.verdict config state)] state.1 (task.run config state).2.1 := by
  obtain ⟨s, c⟩ := state
  cases h : task.verdict config (s, c) with
  | skipped =>
      rw [run_of_skipped h]
      exact Or.inr ⟨not_purges_of_incomplete (by simp), rfl⟩
  | failed f =>
      rw [run_of_failed h]
      exact Or.inr ⟨not_purges_of_incomplete (by simp), rfl⟩
  | completed sections =>
      have henabled : task.isEnabled config = true := enabled_of_not_skipped h nofun
      obtain ⟨opened, -, hrun⟩ := run_of_completed h
      rw [hrun]
      exact retains_kept henabled s

/-- What a run does to the session can be read off the verdicts. -/
theorem retains_runAll
    (config : Configuration)
    (tasks : List Task)
    (state : Session × Context σ) :
    Retains config (verdicts config tasks state) state.1 (runAll config tasks state).2.1 := by
  induction tasks generalizing state with
  | nil => exact Or.inr ⟨fun ⟨_, _, _, hmem⟩ => List.not_mem_nil hmem, rfl⟩
  | cons task rest ih =>
      exact (retains_run config task state).append (ih (task.run config state).2)

/-- A run on a session without a transaction leaves none, keeps every blocked entity, and keeps every
event, except that the expired ones are gone after a run that is no dry run, has maintenance enabled and
completed a removal of events.  A dry run and a run without maintenance keep everything. -/
theorem runAll_removes_expired_only
    (config : Configuration)
    (tasks : List Task)
    (s : Session)
    (hs : s.inTransaction = false)
    (c : Context σ) :
    let after := (runAll config tasks (s, c)).2.1
    let purges :=
      config.dryRun = false ∧ config.maintain = true ∧
        ∃ sections, (Task.purging, Verdict.completed sections) ∈ verdicts config tasks (s, c)
    after.inTransaction = false ∧
    after.committed.blocks = s.committed.blocks ∧
    (purges →
      after.committed.events =
        s.committed.events.map fun events =>
          events.filter fun e => !isExpired s.now config.purgeDays e) ∧
    (¬purges → after.committed.events = s.committed.events) ∧
    (config.dryRun = true ∨ config.maintain = false → after.committed = s.committed) := by
  intro after purges
  have hretains : Retains config (verdicts config tasks (s, c)) s after :=
    retains_runAll config tasks (s, c)
  rcases hretains with ⟨hpurges, hafter⟩ | ⟨hpurges, hafter⟩
  · rw [hafter]
    refine ⟨hs, rfl, fun _ => rfl, fun h => absurd hpurges h, ?_⟩
    rintro (hdry | hmaintain)
    · rw [hpurges.1] at hdry
      cases hdry
    · rw [hpurges.2.1] at hmaintain
      cases hmaintain
  · rw [hafter]
    exact ⟨hs, rfl, fun h => absurd h hpurges, fun _ => rfl, fun _ => rfl⟩

/-- A log of an event on the first of March and one on the eighteenth, seen on the twentieth, with one
blocked entity. -/
def marchLog : Session :=
  { committed :=
      ⟨some
        [⟨"203.0.113.5", .auth, .integer 1001, "2024-03-01 08:00:00"⟩,
          ⟨"198.51.100.7", .openSession, .integer 1002, "2024-03-18 09:30:00"⟩],
        some [some "192.0.2.1"]⟩
    now := 1710892800 }

/-- Of the two events a production run with ten days of grace removes the first one. -/
theorem marchLog_keeps_recent :
    marchLog.inTransaction = false ∧
    (runAll { dryRun := false } [.purging, .dailyCounting, .compacting]
        (marchLog, Context.idle)).2.1.committed =
      ⟨some [⟨"198.51.100.7", .openSession, .integer 1002, "2024-03-18 09:30:00"⟩],
        some [some "192.0.2.1"]⟩ := by
  obtain ⟨-, hblocks, hpurged, -, -⟩ :=
    runAll_removes_expired_only { dryRun := false } [.purging, .dailyCounting, .compacting] marchLog rfl
      Context.idle
  have hcompleted :
      Task.purging.verdict { dryRun := false } (marchLog, Context.idle) =
        .completed ["## Event removal", "Removed logged events older than 10 day(s): 1 tuples"] := by
    decide +kernel
  have hevents := hpurged ⟨rfl, rfl, _, List.mem_cons.mpr (Or.inl (congrArg _ hcompleted.symm))⟩
  have hexpired :
      (marchLog.committed.events.map fun events =>
        events.filter fun e => !isExpired marchLog.now 10 e) =
        some [⟨"198.51.100.7", .openSession, .integer 1002, "2024-03-18 09:30:00"⟩] := by
    decide +kernel
  refine ⟨rfl, ?_⟩
  rw [hexpired] at hevents
  cases hafter : (runAll { dryRun := false } [.purging, .dailyCounting, .compacting]
      (marchLog, Context.idle)).2.1.committed with
  | mk events blocks =>
      rw [hafter] at hevents hblocks
      dsimp only at hevents hblocks
      rw [hevents, hblocks]
      rfl

end Task
end AccessAudit
