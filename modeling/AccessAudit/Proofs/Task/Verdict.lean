import AccessAudit.Proofs.Task.Reading

/-!
# What becomes of a task

A task is skipped, completes with the sections that its body returned, or fails.
This is told apart by running its body on the session on which its scope lets it
start, without regard to what the scope does afterwards.

A task that is skipped or fails leaves the session and the cache as they were.
A task that completes leaves the session as it was, except that removing expired
events outside a dry run removes them.
-/

namespace AccessAudit

open Store (Session Event)

/-- The session without the events that are older than a number of days. -/
def Store.Session.purged (days : Nat) (s : Session) : Session :=
  { s with
    committed :=
      { s.committed with
        events := s.committed.events.map fun es => es.filter fun e => !Task.isExpired s.now days e } }

/-- The session on which the work of a scope starts, if the scope can be opened. -/
def Mode.enter (mode : Mode) (s : Session) : Except Fault Session :=
  if mode ≠ .autoCommit ∧ s.inTransaction then .error Scope.refusal else .ok (mode.entry s)

/-- What becomes of a task in a run. -/
inductive Verdict
  | skipped
  | completed (sections : List String)
  | failed (f : Fault)
  deriving Repr, DecidableEq

namespace Task

/-- What the report says about a task with a verdict. -/
def lines (task : Task) : Verdict → List String
  | .skipped => []
  | .completed sections => sections
  | .failed f =>
      ["ERROR:  Failed to complete " ++ task.name ++ ": " ++ String.intercalate ": " f.links]

variable {σ : Type}

/-- What becomes of a task in a state. -/
def verdict (config : Configuration) (task : Task) (state : Session × Context σ) : Verdict :=
  if !task.isEnabled config then .skipped
  else
    match task.mode.enter state.1 with
    | .error f => .failed f
    | .ok s =>
        match (task.body config (s, state.2)).1 with
        | .ok sections => .completed sections
        | .error f => .failed f

/-- The tasks of a run with what becomes of them. -/
def verdicts (config : Configuration) :
    List Task → Session × Context σ → List (Task × Verdict)
  | [], _ => []
  | task :: rest, state =>
      (task, task.verdict config state) :: verdicts config rest (task.run config state).2

/-- The session after a task that completed. -/
def kept (config : Configuration) (task : Task) (s : Session) : Session :=
  if task = .purging ∧ config.dryRun = false then s.purged config.purgeDays else s

/-! ### Bodies -/

/-- Compacting changes nothing, whether or not it succeeds. -/
theorem compact_session
    (s : Session) :
    s.compact.2 = s := by
  unfold Session.compact
  cases hs : s.transaction with
  | some t => simp [Session.inTransaction, hs]
  | none =>
      simp only [Session.inTransaction, hs, Option.isSome_none, Bool.false_eq_true, if_false,
        Session.write]
      split
      · rfl
      · split
        · rfl
        · rw [← hs]

/-- The body of every task stays within the transaction in which it runs. -/
theorem contained_body
    (config : Configuration)
    (task : Task) :
    Scope.Contained (task.body (σ := σ) config) := by
  cases task with
  | purging => exact fun _ _ _ h => h.step (Statement.step_writeEvents _ _)
  | dailyCounting => exact reads_dailyEventCount.contained
  | ranking => exact (reads_topCounts config).contained
  | compacting => exact fun _ _ _ h => h.step (Statement.step_exec .compact _)

theorem context_dailyAfter
    {counted : Except Fault Nat}
    {state : Session × Context σ}
    {f : Fault}
    (h : (dailyAfter counted state).1 = .error f) :
    (dailyAfter counted state).2 = state := by
  rcases counted with _ | _ | n
  · rfl
  · rfl
  · cases h

theorem context_topAfter
    {config : Configuration}
    {counted : Except Fault Nat}
    {state : Session × Context σ}
    {f : Fault}
    (h : (topAfter config counted state).1 = .error f) :
    (topAfter config counted state).2.2 = state.2 := by
  rcases counted with _ | _ | n
  · rfl
  · simp only [topAfter] at h ⊢
    rcases hblocks : (counting countBlocks state).1 with _ | _ | n
    · rfl
    · rfl
    · rw [hblocks] at h
      cases h
  · cases h

/-- A body that fails leaves the context as it was: counting comes before the first lookup, and once
everything is counted no body fails. -/
theorem context_body_of_error
    {config : Configuration}
    {task : Task}
    {s : Session}
    {c : Context σ}
    {f : Fault}
    (h : (task.body config (s, c)).1 = .error f) :
    (task.body config (s, c)).2.2 = c := by
  cases task with
  | purging => rfl
  | compacting => rfl
  | dailyCounting =>
      have heq : body config .dailyCounting (s, c) =
          dailyAfter (counting countEvents (s, c)).1 (counting countEvents (s, c)).2 :=
        congrFun dailyEventCount_eq (s, c)
      rw [heq] at h ⊢
      rw [context_dailyAfter h]
      rfl
  | ranking =>
      have heq : body config .ranking (s, c) =
          topAfter config (counting countEvents (s, c)).1 (counting countEvents (s, c)).2 :=
        congrFun (topCounts_eq config) (s, c)
      rw [heq] at h ⊢
      rw [context_topAfter h]
      rfl

/-- Deleting events in a transaction just opened removes exactly the selected ones, once the
transaction is settled. -/
theorem settled_deleteEvents
    {s : Session}
    (hs : s.transaction = none)
    {selected : Event → Bool}
    {n : Nat}
    (h : (s.opened.deleteEvents selected).1 = .ok n) :
    (s.opened.deleteEvents selected).2.settled =
      { s with
        committed :=
          { s.committed with
            events := s.committed.events.map fun es => es.filter fun e => !selected e } } := by
  obtain ⟨⟨events, blocks⟩, reference, transaction, limits, networks, now⟩ := s
  obtain ⟨queryOnly, readOnlyFile⟩ := limits
  cases hs
  cases events with
  | none => cases h
  | some events =>
      cases queryOnly with
      | true => cases h
      | false =>
          cases readOnlyFile with
          | true => cases h
          | false => rfl

/-! ### Scopes of tasks -/

section Scopes

variable {config : Configuration} {task : Task} {s opened : Session} {c : Context σ}

/-- A scope that can be opened starts on the session itself or in a transaction of its own. -/
theorem enter_eq_ok
    {mode : Mode}
    (h : mode.enter s = .ok opened) :
    (mode = .autoCommit ∧ opened = s) ∨
    (mode ≠ .autoCommit ∧ s.transaction = none ∧ opened = s.opened) := by
  unfold Mode.enter at h
  split at h
  · cases h
  · next hopen =>
      cases h
      by_cases hmode : mode = .autoCommit
      · subst hmode
        exact Or.inl ⟨rfl, rfl⟩
      · refine Or.inr ⟨hmode, ?_, Mode.entry_eq_opened hmode s⟩
        simpa [Session.inTransaction, hmode] using hopen

theorem scope_of_refused
    {f : Fault}
    (henter : task.mode.enter s = .error f) :
    Scope.run task.mode config.dryRun (task.body config) (s, c) = (.error f, (s, c)) := by
  unfold Mode.enter at henter
  split at henter
  · next hopen =>
      cases henter
      exact Scope.run_refused _ hopen.2 hopen.1 config.dryRun c
  · cases henter

theorem mode_eq_autoCommit
    (h : task.mode = .autoCommit) :
    task = .compacting := by
  cases task with
  | compacting => rfl
  | purging => cases h
  | dailyCounting => cases h
  | ranking => cases h

/-- A task whose body fails ends with the body's failure, and nothing has changed. -/
theorem scope_of_error
    {f : Fault}
    (henter : task.mode.enter s = .ok opened)
    (hbody : (task.body config (opened, c)).1 = .error f) :
    Scope.run task.mode config.dryRun (task.body config) (s, c) = (.error f, (s, c)) := by
  rcases enter_eq_ok henter with ⟨hmode, rfl⟩ | ⟨hmode, hs, rfl⟩
  · have htask := mode_eq_autoCommit hmode
    subst htask
    refine Prod.ext hbody (Prod.ext ?_ rfl)
    exact compact_session opened
  · rw [Scope.run_eq_of_contained (contained_body config task) hs hmode, hbody,
      context_body_of_error hbody, Scope.keeps_error hmode]
    rfl

theorem deleteEvents_of_body
    {sections : List String}
    (h : (body config .purging (s, c)).1 = .ok sections) :
    ∃ n, (s.deleteEvents (isExpired s.now config.purgeDays)).1 = .ok n := by
  cases hremoved : (s.deleteEvents (isExpired s.now config.purgeDays)).1 with
  | ok n => exact ⟨n, rfl⟩
  | error e =>
      simp only [body, removeExpired, hremoved] at h
      cases h

/-- A task whose body succeeds ends with the sections of the body. -/
theorem scope_of_ok
    {sections : List String}
    (henter : task.mode.enter s = .ok opened)
    (hbody : (task.body config (opened, c)).1 = .ok sections) :
    Scope.run task.mode config.dryRun (task.body config) (s, c) =
      (.ok sections, (task.kept config s, (task.body config (opened, c)).2.2)) := by
  rcases enter_eq_ok henter with ⟨hmode, rfl⟩ | ⟨hmode, hs, rfl⟩
  · have htask := mode_eq_autoCommit hmode
    subst htask
    refine Prod.ext hbody (Prod.ext ?_ rfl)
    exact compact_session opened
  · rw [Scope.run_eq_of_contained (contained_body config task) hs hmode, hbody]
    cases task with
    | compacting => exact absurd rfl hmode
    | dailyCounting => rfl
    | ranking => rfl
    | purging =>
        -- the only scope that may keep something
        cases hdry : config.dryRun with
        | true => simp [mode, kept, Scope.keeps, hdry]
        | false =>
            obtain ⟨n, hremoved⟩ := deleteEvents_of_body hbody
            have hsettled : (body config .purging (s.opened, c)).2.1.settled =
                s.purged config.purgeDays :=
              settled_deleteEvents hs hremoved
            simp [mode, kept, Scope.keeps, hdry, hsettled]

end Scopes

/-! ### Runs of a single task -/

section Single

variable {config : Configuration} {task : Task} {s : Session} {c : Context σ}

theorem enabled_of_not_skipped
    {verdict : Verdict}
    (h : task.verdict config (s, c) = verdict)
    (hverdict : verdict ≠ .skipped) :
    task.isEnabled config = true := by
  cases hdisabled : task.isEnabled config with
  | true => rfl
  | false =>
      have hskipped : task.verdict config (s, c) = .skipped := by
        simp [Task.verdict, hdisabled]
      exact absurd (h.symm.trans hskipped) hverdict

/-- A task fails because its scope cannot be opened or because its body fails. -/
theorem failed_cases
    {f : Fault}
    (h : task.verdict config (s, c) = .failed f) :
    task.mode.enter s = .error f ∨
    ∃ opened, task.mode.enter s = .ok opened ∧ (task.body config (opened, c)).1 = .error f := by
  unfold verdict at h
  split at h
  · cases h
  · split at h
    · next f' henter =>
        cases h
        exact Or.inl henter
    · next opened henter =>
        split at h
        · cases h
        · next f' hbody =>
            cases h
            exact Or.inr ⟨opened, henter, hbody⟩

/-- A task completes because its scope can be opened and its body succeeds. -/
theorem completed_cases
    {sections : List String}
    (h : task.verdict config (s, c) = .completed sections) :
    ∃ opened,
      task.mode.enter s = .ok opened ∧ (task.body config (opened, c)).1 = .ok sections := by
  unfold verdict at h
  split at h
  · cases h
  · split at h
    · cases h
    · next opened henter =>
        split at h
        · next sections' hbody =>
            cases h
            exact ⟨opened, henter, hbody⟩
        · cases h

theorem run_of_skipped
    (h : task.verdict config (s, c) = .skipped) :
    task.run config (s, c) = ([], (s, c)) := by
  unfold verdict at h
  unfold run
  split at h
  · next hdisabled => exact if_pos hdisabled
  · split at h
    · cases h
    · split at h <;> cases h

/-- A task that fails leaves its line in the report and a notice in the log, and nothing else. -/
theorem run_of_failed
    {f : Fault}
    (h : task.verdict config (s, c) = .failed f) :
    task.run config (s, c) =
      (task.lines (.failed f), (s, c.note (task.failureNotice f))) := by
  have henabled : task.isEnabled config = true := enabled_of_not_skipped h nofun
  have hrun : Scope.run task.mode config.dryRun (task.body config) (s, c) = (.error f, (s, c)) := by
    rcases failed_cases h with henter | ⟨opened, henter, hbody⟩
    · exact scope_of_refused henter
    · exact scope_of_error henter hbody
  simp only [run, henabled, hrun, Bool.not_true, Bool.false_eq_true, if_false]
  rfl

/-- A task that completes reports the sections that its body returned, and its context is the one that
the body left. -/
theorem run_of_completed
    {sections : List String}
    (h : task.verdict config (s, c) = .completed sections) :
    ∃ opened,
      task.mode.enter s = .ok opened ∧
      task.run config (s, c) =
        (sections, (task.kept config s, (task.body config (opened, c)).2.2)) := by
  have henabled : task.isEnabled config = true := enabled_of_not_skipped h nofun
  obtain ⟨opened, henter, hbody⟩ := completed_cases h
  have hrun := scope_of_ok henter hbody
  refine ⟨opened, henter, ?_⟩
  simp only [run, henabled, hrun, Bool.not_true, Bool.false_eq_true, if_false]

/-- A task that removes nothing leaves the session as it was. -/
theorem session_run_of_ne
    (htask : task ≠ .purging) :
    (task.run config (s, c)).2.1 = s := by
  cases h : task.verdict config (s, c) with
  | skipped => rw [run_of_skipped h]
  | failed f => rw [run_of_failed h]
  | completed sections =>
      obtain ⟨opened, -, hrun⟩ := run_of_completed h
      rw [hrun]
      simp only [kept, htask, false_and, if_false]

end Single

end Task
end AccessAudit
