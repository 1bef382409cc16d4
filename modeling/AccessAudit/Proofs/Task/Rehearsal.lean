import AccessAudit.Proofs.Task.Failure
import AccessAudit.Proofs.Task.Retention

/-!
# A dry run rehearses a production run

Reports do not depend on whether a run is dry, nor on whether it does maintenance.
So the report of a whole run with maintenance consists of the lines about the
removal of events, the report of a run without maintenance, and the lines about
compaction.  A production run makes the middle part on the log without the expired
events, and a dry run on the log as it is; about the removal both say the same, and
it is what the production run does.
-/

namespace AccessAudit

open Store (Session Event)

/-- The same configuration for a run without maintenance. -/
def Configuration.reportsOnly (config : Configuration) (dryRun : Bool) : Configuration :=
  { config with maintain := false, dryRun := dryRun }

namespace Task

variable {σ : Type}

/-! ### Reports do not depend on maintenance -/

theorem sectionsOf_reportsOnly
    (config : Configuration)
    (dryRun : Bool)
    (parts : List Part)
    (state : Session × Context σ) :
    sectionsOf (config.reportsOnly dryRun) parts state = sectionsOf config parts state := by
  induction parts generalizing state with
  | nil => rfl
  | cons part rest ih =>
      have hreport : part.report (σ := σ) (config.reportsOnly dryRun) = part.report config := by
        cases part <;> rfl
      simp only [sectionsOf, hreport, ih]

theorem body_reportsOnly
    (config : Configuration)
    (dryRun : Bool)
    {task : Task}
    (htask : task = .dailyCounting ∨ task = .ranking) :
    task.body (σ := σ) (config.reportsOnly dryRun) = task.body config := by
  rcases htask with rfl | rfl
  · rfl
  · simp only [body]
    unfold topCounts
    simp only [sectionsOf_reportsOnly]

/-- A scope that discards everything does so in a dry run and in any other. -/
theorem scope_alwaysRollBack
    {α ρ : Type}
    (dryRun dryRun' : Bool)
    (work : Work ρ α) :
    Scope.run .alwaysRollBack dryRun work = Scope.run .alwaysRollBack dryRun' work := by
  rfl

theorem run_reportsOnly
    (config : Configuration)
    (dryRun : Bool)
    {task : Task}
    (htask : task = .dailyCounting ∨ task = .ranking)
    (state : Session × Context σ) :
    task.run (config.reportsOnly dryRun) state = task.run config state := by
  have hbody := body_reportsOnly (σ := σ) config dryRun htask
  have henabled : task.isEnabled (config.reportsOnly dryRun) = task.isEnabled config := by
    rcases htask with rfl | rfl <;> rfl
  have hmode : task.mode = .alwaysRollBack := by
    rcases htask with rfl | rfl <;> rfl
  unfold run
  rw [hbody, henabled, hmode, scope_alwaysRollBack _ config.dryRun]

/-! ### Maintenance that succeeds -/

/-- What the report says about the removal of events. -/
def removalLines (days removed : Nat) : List String :=
  ["## Event removal", s!"Removed logged events older than {days} day(s): {removed} tuples"]

/-- What the report says about compaction. -/
def compactionLines : List String :=
  ["## Database compaction", "Vacuum and statistics refresh completed."]

section Maintenance

variable {config : Configuration} {s : Session} {c : Context σ} {removed : Nat}

/-- Where events can be deleted in a transaction, the session may write and has a log, and the number of
deleted events is that of the selected ones. -/
theorem writable_of_deleteEvents
    {selected : Event → Bool}
    (h : (s.opened.deleteEvents selected).1 = .ok removed) :
    s.limits.queryOnly = false ∧ s.limits.readOnlyFile = false ∧
      ∃ events, s.committed.events = some events ∧
        removed + (events.filter fun e => !selected e).length = events.length := by
  obtain ⟨⟨events, blocks⟩, reference, transaction, ⟨queryOnly, readOnlyFile⟩, networks, now⟩ := s
  cases events with
  | none => cases h
  | some events =>
      cases queryOnly with
      | true => cases h
      | false =>
          cases readOnlyFile with
          | true => cases h
          | false =>
              cases h
              refine ⟨rfl, rfl, events, rfl, ?_⟩
              exact Nat.sub_add_cancel (List.length_filter_le _ _)

/-- Removing events in a transaction of its own reports their number, and what is kept of it is what the
kind of run keeps. -/
theorem run_purging
    (hmaintain : config.maintain = true)
    (hs : s.inTransaction = false)
    (hremoved : (s.opened.deleteEvents (isExpired s.now config.purgeDays)).1 = .ok removed) :
    Task.purging.run config (s, c) =
      (removalLines config.purgeDays removed, (Task.purging.kept config s, c)) := by
  have hnow : s.opened.now = s.now := rfl
  have hverdict : Task.purging.verdict config (s, c) =
      .completed (removalLines config.purgeDays removed) := by
    simp [verdict, isEnabled, hmaintain, Mode.enter, Mode.entry, mode, hs, body, removeExpired, hnow,
      hremoved, Fault.during, removalLines, bind, Except.bind]
  obtain ⟨opened, -, hrun⟩ := run_of_completed hverdict
  rw [hrun]
  rfl

/-- Compacting a database that may be written to, outside a transaction, succeeds. -/
theorem run_compacting
    (hmaintain : config.maintain = true)
    (hs : s.transaction = none)
    (hquery : s.limits.queryOnly = false)
    (hfile : s.limits.readOnlyFile = false) :
    Task.compacting.run config (s, c) = (compactionLines, (s, c)) := by
  have hcompact : s.compact.1 = .ok () := by
    simp [Session.compact, Session.inTransaction, hs, Session.write, hquery, hfile]
  have hverdict : Task.compacting.verdict config (s, c) = .completed compactionLines := by
    simp [verdict, isEnabled, hmaintain, Mode.enter, Mode.entry, mode, body, compactDatabase,
      hcompact, Fault.during, compactionLines, bind, Except.bind]
  obtain ⟨opened, -, hrun⟩ := run_of_completed hverdict
  rw [hrun]
  rfl

end Maintenance

/-! ### Whole runs -/

/-- The reports between the two tasks of maintenance. -/
def reports (config : Configuration) (s : Session) (c : Context σ) :
    List String × (Session × Context σ) :=
  runAll config [.dailyCounting, .ranking] (s, c)

theorem session_reports
    (config : Configuration)
    (s : Session)
    (c : Context σ) :
    (reports config s c).2.1 = s := by
  have hcounting : (Task.dailyCounting.run config (s, c)).2.1 = s := session_run_of_ne nofun
  have hranking : ∀ state : Session × Context σ,
      (Task.ranking.run config state).2.1 = state.1 := fun _ => session_run_of_ne nofun
  simp only [reports, runAll, hranking, hcounting]

/-- A run without maintenance consists of the reports. -/
theorem runAll_reportsOnly
    (config : Configuration)
    (dryRun : Bool)
    (s : Session)
    (c : Context σ) :
    (runAll (config.reportsOnly dryRun) sequence (s, c)).1 = (reports config s c).1 := by
  have hpurging : ∀ state : Session × Context σ,
      Task.purging.run (config.reportsOnly dryRun) state = ([], state) := fun _ => rfl
  have hcompacting : ∀ state : Session × Context σ,
      Task.compacting.run (config.reportsOnly dryRun) state = ([], state) := fun _ => rfl
  simp only [sequence, reports, runAll, hpurging, hcompacting,
    run_reportsOnly config dryRun (Or.inl rfl), run_reportsOnly config dryRun (Or.inr rfl),
    List.nil_append]

/-- A run with maintenance makes its reports on what the removal of events has left, and keeps that. -/
theorem runAll_sequence
    (config : Configuration)
    (hmaintain : config.maintain = true)
    {s : Session}
    (hs : s.inTransaction = false)
    (c : Context σ)
    {removed : Nat}
    (hremoved : (s.opened.deleteEvents (isExpired s.now config.purgeDays)).1 = .ok removed) :
    let left := Task.purging.kept config s
    runAll config sequence (s, c) =
      (removalLines config.purgeDays removed ++ (reports config left c).1 ++ compactionLines,
        (reports config left c).2) := by
  intro left
  obtain ⟨hquery, hfile, -⟩ := writable_of_deleteEvents hremoved
  have hleft : left.transaction = none ∧ left.limits = s.limits := by
    have hnone : s.transaction = none := by
      simpa [Session.inTransaction] using hs
    simp only [left, kept]
    split
    · exact ⟨hnone, rfl⟩
    · exact ⟨hnone, rfl⟩
  have hcompacting : Task.compacting.run config (reports config left c).2 =
      (compactionLines, (reports config left c).2) := by
    have hstate : (reports config left c).2 = (left, (reports config left c).2.2) :=
      Prod.ext (session_reports config left c) rfl
    rw [hstate]
    refine run_compacting hmaintain hleft.1 ?_ ?_
    · rw [hleft.2, hquery]
    · rw [hleft.2, hfile]
  have hpurging : Task.purging.run config (s, c) =
      (removalLines config.purgeDays removed, (left, c)) :=
    run_purging hmaintain hs hremoved
  simp only [reports, runAll] at hcompacting
  simp only [sequence, reports, runAll, hpurging, List.append_nil]
  rw [hcompacting]
  simp only [List.append_assoc]

/-- Between what it says about maintenance, a run says what a run without maintenance says about the
session that it leaves. -/
theorem lines_sequence
    (config : Configuration)
    (hmaintain : config.maintain = true)
    {s : Session}
    (hs : s.inTransaction = false)
    (c : Context σ)
    {removed : Nat}
    (hremoved : (s.opened.deleteEvents (isExpired s.now config.purgeDays)).1 = .ok removed)
    (dryRun : Bool) :
    let left := Task.purging.kept config s
    (runAll config sequence (s, c)).1 =
      removalLines config.purgeDays removed ++
        (runAll (config.reportsOnly dryRun) sequence (left, c)).1 ++ compactionLines ∧
    (runAll config sequence (s, c)).2.1 = left := by
  intro left
  rw [runAll_sequence config hmaintain hs c hremoved, runAll_reportsOnly]
  exact ⟨rfl, session_reports config left c⟩

/-- Three runs from one state, with a removal of events that succeeds.  A production run says how many
events are gone, reports like a run without maintenance on the log without them, and ends with the lines
about compaction.  A dry run says the same about the removal and reports like a run without maintenance
on the log as it is.  The number that both tell is that of the events that the production run removes. -/
theorem dry_run_rehearses_production
    (config : Configuration)
    (hmaintain : config.maintain = true)
    (s : Session)
    (hs : s.inTransaction = false)
    (c : Context σ)
    (removed : Nat)
    (hremoved : (s.opened.deleteEvents (isExpired s.now config.purgeDays)).1 = .ok removed) :
    let production := runAll { config with dryRun := false } sequence (s, c)
    let rehearsal := runAll { config with dryRun := true } sequence (s, c)
    let reportsOnly := fun (dryRun : Bool) (seen : Session) =>
      (runAll { config with maintain := false, dryRun := dryRun } sequence (seen, c)).1
    (∀ dryRun,
      production.1 =
        ["## Event removal",
          s!"Removed logged events older than {config.purgeDays} day(s): {removed} tuples"] ++
        reportsOnly dryRun (s.purged config.purgeDays) ++
        ["## Database compaction", "Vacuum and statistics refresh completed."]) ∧
    (∀ dryRun,
      rehearsal.1 =
        ["## Event removal",
          s!"Removed logged events older than {config.purgeDays} day(s): {removed} tuples"] ++
        reportsOnly dryRun s ++
        ["## Database compaction", "Vacuum and statistics refresh completed."]) ∧
    production.2.1 = s.purged config.purgeDays ∧
    rehearsal.2.1 = s ∧
    ∃ before after,
      s.committed.events = some before ∧
      production.2.1.committed.events = some after ∧
      removed + after.length = before.length := by
  intro production rehearsal reportsOnly
  have hproduction := lines_sequence { config with dryRun := false } hmaintain hs c hremoved
  have hrehearsal := lines_sequence { config with dryRun := true } hmaintain hs c hremoved
  have hafter : production.2.1 = s.purged config.purgeDays := (hproduction false).2
  refine ⟨fun dryRun => (hproduction dryRun).1, fun dryRun => (hrehearsal dryRun).1, hafter,
    (hrehearsal true).2, ?_⟩
  obtain ⟨-, -, before, hbefore, hcount⟩ := writable_of_deleteEvents hremoved
  refine ⟨before, _, hbefore, ?_, hcount⟩
  rw [hafter]
  simp only [Session.purged, hbefore, Option.map_some]

/-- A dry run announces the one event that a production run removes, and still reports it. -/
theorem marchLog_rehearsed :
    (marchLog.opened.deleteEvents (isExpired marchLog.now 10)).1 = .ok 1 ∧
    (runAll { dryRun := true } sequence (marchLog, Context.idle)).1 =
      ["## Event removal", "Removed logged events older than 10 day(s): 1 tuples"] ++
      (runAll { maintain := false } sequence (marchLog, Context.idle)).1 ++
      ["## Database compaction", "Vacuum and statistics refresh completed."] ∧
    (runAll { dryRun := false } sequence (marchLog, Context.idle)).2.1.committed.events =
      some [⟨"198.51.100.7", .openSession, .integer 1002, "2024-03-18 09:30:00"⟩] := by
  have hremoved : (marchLog.opened.deleteEvents (isExpired marchLog.now 10)).1 = .ok 1 := by
    have hcount :
        2 - ((marchLog.committed.events.getD []).filter fun e => !isExpired marchLog.now 10 e).length =
          1 := by
      decide +kernel
    exact congrArg Except.ok hcount
  obtain ⟨-, hrehearsal, hproduction, -, -⟩ :=
    dry_run_rehearses_production {} rfl marchLog rfl Context.idle 1 hremoved
  refine ⟨hremoved, hrehearsal true, ?_⟩
  rw [hproduction]
  decide +kernel

end Task
end AccessAudit
