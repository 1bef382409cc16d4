import AccessAudit.Proofs.Scope.Nesting
import AccessAudit.Proofs.Task.Verdict

/-!
# Tasks within an open transaction

Tasks that are run within a transaction that someone else has opened all fail:
three of them because their scope cannot be opened, and compacting because it
may not happen within a transaction.  They leave that transaction as it was.

With the translations of procedures this settles what nested scopes amount to.
-/

namespace AccessAudit

open Store (Session)

namespace Task

/-- The failure of a task within an open transaction. -/
def refusal : Task → Fault
  | .compacting => (Fault.ofStore .compactInTransaction).within .compactDatabase
  | .purging | .dailyCounting | .ranking => Scope.refusal

section Refused

variable {σ : Type} {s : Session}

theorem verdict_of_inTransaction
    (config : Configuration)
    (task : Task)
    (hs : s.inTransaction = true)
    (c : Context σ) :
    task.verdict config (s, c) =
      if task.isEnabled config then .failed task.refusal else .skipped := by
  cases henabled : task.isEnabled config with
  | false => simp [verdict, henabled]
  | true =>
      cases task with
      | purging => simp [verdict, henabled, mode, Mode.enter, hs, refusal]
      | dailyCounting => simp [verdict, henabled, mode, Mode.enter, hs, refusal]
      | ranking => simp [verdict, henabled, mode, Mode.enter, hs, refusal]
      | compacting =>
          have hcompact : s.compact = (.error .compactInTransaction, s) := by
            simp [Session.compact, hs]
          simp [verdict, henabled, mode, Mode.enter, Mode.entry, body, compactDatabase, hcompact]
          rfl

/-- A task within an open transaction leaves a line of the report if it is enabled, and changes nothing
but the notices. -/
theorem run_of_inTransaction
    (config : Configuration)
    (task : Task)
    (hs : s.inTransaction = true)
    (c : Context σ) :
    ∃ notices,
      task.run config (s, c) =
        (if task.isEnabled config then [task.failureLine task.refusal] else [],
          (s, { c with notices := notices })) := by
  have hverdict := verdict_of_inTransaction config task hs c
  cases henabled : task.isEnabled config with
  | false =>
      simp only [henabled, Bool.false_eq_true, if_false] at hverdict
      exact ⟨c.notices, run_of_skipped hverdict⟩
  | true =>
      simp only [henabled, if_true] at hverdict
      exact ⟨_, run_of_failed hverdict⟩

/-- Tasks within an open transaction leave one line of the report each, where they are enabled, and
change nothing but the notices. -/
theorem runAll_of_inTransaction
    (config : Configuration)
    (tasks : List Task)
    (hs : s.inTransaction = true)
    (c : Context σ) :
    ∃ notices,
      runAll config tasks (s, c) =
        ((tasks.filter (isEnabled config)).map fun task => task.failureLine task.refusal,
          (s, { c with notices := notices })) := by
  induction tasks generalizing c with
  | nil => exact ⟨c.notices, rfl⟩
  | cons task rest ih =>
      obtain ⟨first, hfirst⟩ := run_of_inTransaction config task hs c
      obtain ⟨notices, hrest⟩ := ih { c with notices := first }
      refine ⟨notices, ?_⟩
      simp only [runAll, hfirst, hrest]
      cases henabled : task.isEnabled config with
      | false => simp [henabled]
      | true => simp [henabled]

end Refused

variable {ρ σ β : Type}

/-- Scopes nest only through the outermost one that opens a transaction. -/
theorem nested_scopes_share_outermost
    (p : Procedure ρ β)
    (s : Session)
    (hs : s.inTransaction = false)
    (c : ρ) :
    -- the outermost scope decides, by its mode, the kind of run and the outcome of its procedure
    (∀ {γ : Type} (work : Procedure ρ (Except Fault γ)) (mode : Mode) (dryRun : Bool),
      mode ≠ .autoCommit →
      let own := work.run (s.opened, c)
      Scope.run mode dryRun work.run (s, c) =
        (own.1,
          (if Scope.keeps mode dryRun own.1
            then { s with committed := own.2.1.tables, reference := own.2.1.reference }
            else s,
            own.2.2))) ∧
    -- below it the others are refused without being run, and those without a transaction are run in
    -- place, all within the transaction that it has opened
    (∀ {γ δ ε : Type} (work : Procedure ρ (Except Fault γ))
        (mode : Mode) (dryRun : Bool) (inner : Procedure ρ (Except Fault δ))
        (next : Except Fault δ → Procedure ρ ε) (s' : Session) (c' : ρ),
      Procedure.Visits (.scope mode dryRun inner next) (s', c') work (s.opened, c) →
      s'.inTransaction = true ∧
      s'.rollBack = .ok s ∧
      (mode ≠ .autoCommit →
        Scope.run mode dryRun inner.run (s', c') = (.error Scope.refusal, (s', c'))) ∧
      (mode = .autoCommit →
        Scope.run mode dryRun inner.run (s', c') = inner.inside.run (s', c') ∧ inner.inside.Flat)) ∧
    -- the whole procedure amounts to outermost scopes one after the other, and leaves room for another
    p.run (s, c) = p.outside.run (s, c) ∧
    p.outside.Unnested ∧
    (p.run (s, c)).2.1.inTransaction = false ∧
    (∀ {γ : Type} (fresh : Procedure ρ (Except Fault γ)) (mode : Mode) (dryRun : Bool),
      (Scope.run mode dryRun fresh.run (p.run (s, c)).2).1 =
        (fresh.run (mode.entry (p.run (s, c)).2.1, (p.run (s, c)).2.2)).1) ∧
    -- tasks within an open transaction are refused like inner scopes
    (∀ (config : Configuration) (tasks : List Task) (inner : Session) (d : Context σ),
      inner.inTransaction = true →
      ∃ notices,
        runAll config tasks (inner, d) =
          ((tasks.filter (isEnabled config)).map fun task => task.failureLine task.refusal,
            (inner, { d with notices := notices }))) := by
  have hnone : s.transaction = none := by
    simpa [Session.inTransaction] using hs
  have hafter := p.transaction_run hnone c
  refine ⟨?_, ?_, (p.run_outside hnone c).symm, p.unnested_outside, ?_, ?_, ?_⟩
  · intro γ work mode dryRun hmode
    exact work.run_outermost hnone hmode dryRun c
  · intro γ δ ε work mode dryRun inner next s' c' hvisits
    have hpending := hvisits.pending (Session.pending_opened s)
    refine ⟨hpending.inTransaction, hpending.rollBack hnone, ?_, ?_⟩
    · intro hmode
      exact Scope.run_refused inner.run hpending.inTransaction hmode dryRun c'
    · rintro rfl
      exact ⟨(inner.run_inside hpending.inTransaction c').symm, inner.flat_inside⟩
  · simp [Session.inTransaction, hafter]
  · intro γ fresh mode dryRun
    by_cases hmode : mode = .autoCommit
    · subst hmode
      rfl
    · have hfresh := congrArg Prod.fst (fresh.run_outermost hafter hmode dryRun (p.run (s, c)).2.2)
      rw [Mode.entry_eq_opened hmode]
      exact hfresh
  · intro config tasks inner d hinner
    exact runAll_of_inTransaction config tasks hinner d

/-- An attempt to drop the log. -/
def dropLog : Procedure Unit (Except Fault Unit) :=
  .statement (.drop .events) fun _ => .done (.ok ())

/-- An attempt to drop the log in a scope of its own, whose failure is swallowed. -/
def dropLogInScope : Procedure Unit (Except Fault Nat) :=
  .scope .alwaysRollBack false dropLog fun _ => .done (.ok 1)

/-- Work that blocks an address and then tries to drop the log. -/
def blockThenDrop : Procedure Unit (Except Fault Nat) :=
  .statement (.insertBlock (.text "192.0.2.1")) fun _ => dropLogInScope

/-- The session in which `blockThenDrop` comes to its inner scope. -/
def blockedSession : Session :=
  (Scope.emptySession.opened.insertBlock (.text "192.0.2.1")).2

/-- In a production run the inner scope is refused and the blocked address is kept; a dry run keeps
nothing.  Tasks that are run in place of the inner scope are refused as well. -/
theorem blockThenDrop_keeps_log :
    Scope.emptySession.inTransaction = false ∧
    Scope.run .guardedMutation false blockThenDrop.run (Scope.emptySession, ()) =
      (.ok 1, ({ Scope.emptySession with committed := ⟨some [], some [some "192.0.2.1"]⟩ }, ())) ∧
    Scope.run .guardedMutation true blockThenDrop.run (Scope.emptySession, ()) =
      (.ok 1, (Scope.emptySession, ())) ∧
    Scope.run .alwaysRollBack false dropLog.run (blockedSession, ()) =
      (.error Scope.refusal, (blockedSession, ())) ∧
    (runAll { report := false } sequence (blockedSession, Context.idle)).1 =
      [failureLine .purging Scope.refusal,
        failureLine .compacting ((Fault.ofStore .compactInTransaction).within .compactDatabase)] := by
  have hnested := nested_scopes_share_outermost (σ := Unit) blockThenDrop Scope.emptySession rfl ()
  obtain ⟨houtermost, hbelow, -, -, -, -, htasks⟩ := hnested
  have hvisits : Procedure.Visits dropLogInScope (blockedSession, ())
      blockThenDrop (Scope.emptySession.opened, ()) :=
    .statement .here
  refine ⟨rfl, ?_, ?_, ?_, ?_⟩
  · exact (houtermost blockThenDrop .guardedMutation false nofun).trans rfl
  · exact (houtermost blockThenDrop .guardedMutation true nofun).trans rfl
  · exact (hbelow blockThenDrop .alwaysRollBack false dropLog _ blockedSession () hvisits).2.2.1 nofun
  · obtain ⟨notices, hlines⟩ := htasks { report := false } sequence blockedSession Context.idle rfl
    rw [hlines]
    rfl

end Task
end AccessAudit
