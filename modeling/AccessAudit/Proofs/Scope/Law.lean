import AccessAudit.Proofs.Scope.Pending

/-!
# The law of a scope

A scope returns what its work returned and leaves no transaction open.  What it
does with the contents is read off a table of three rows, `Scope.keeps`: kept
are the changes of work without a transaction, and those of guarded work that
succeeds outside a dry run.  In every other case the session is exactly the one
in which the scope was opened, with its schema and its reference set.
-/

namespace AccessAudit

open Store (Session)

/-- The session on which the work of a scope starts. -/
def Mode.entry : Mode → Session → Session
  | .autoCommit, s => s
  | .guardedMutation, s => s.opened
  | .alwaysRollBack, s => s.opened

theorem Mode.entry_eq_opened
    {mode : Mode}
    (hmode : mode ≠ .autoCommit)
    (s : Session) :
    mode.entry s = s.opened := by
  cases mode with
  | autoCommit => exact absurd rfl hmode
  | guardedMutation => rfl
  | alwaysRollBack => rfl

namespace Scope

variable {ρ α β : Type}

/-- Whether a scope keeps the changes of work with an outcome. -/
def keeps : Mode → Bool → Except Fault α → Bool
  | .autoCommit, _, _ => true
  | .guardedMutation, false, .ok _ => true
  | _, _, _ => false

theorem keeps_error
    {mode : Mode}
    (hmode : mode ≠ .autoCommit)
    (dryRun : Bool)
    (f : Fault) :
    keeps (α := α) mode dryRun (.error f) = false := by
  cases mode with
  | autoCommit => exact absurd rfl hmode
  | guardedMutation => cases dryRun <;> rfl
  | alwaysRollBack => rfl

/-- Work that neither ends the transaction in which it runs nor reaches beyond it. -/
def Contained (work : Session × ρ → β × (Session × ρ)) : Prop :=
  ∀ (start s : Session) (c : ρ),
    Session.Pending start s → Session.Pending start (work (s, c)).2.1

/-- Within an open transaction a scope that would open another one fails; its work is not run and
nothing changes. -/
theorem run_refused
    (work : Work ρ α)
    {s : Session}
    (hs : s.inTransaction = true)
    {mode : Mode}
    (hmode : mode ≠ .autoCommit)
    (dryRun : Bool)
    (c : ρ) :
    run mode dryRun work (s, c) = (.error refusal, (s, c)) := by
  obtain ⟨t, ht⟩ := Option.isSome_iff_exists.mp hs
  have hbegin : s.begin = .error .alreadyInTransaction := by
    simp [Session.begin, ht]
  cases mode with
  | autoCommit => exact absurd rfl hmode
  | guardedMutation =>
      simp only [run, hbegin]
      rfl
  | alwaysRollBack =>
      simp only [run, hbegin]
      rfl

/-- A scope that opens a transaction ends it in one of two ways. -/
theorem run_eq_of_ends
    {work : Work ρ α}
    {s kept discarded : Session}
    (hs : s.transaction = none)
    {mode : Mode}
    (hmode : mode ≠ .autoCommit)
    (dryRun : Bool)
    (c : ρ)
    (hcommit : (work (s.opened, c)).2.1.commit = .ok kept)
    (hrollBack : (work (s.opened, c)).2.1.rollBack = .ok discarded) :
    run mode dryRun work (s, c) =
      ((work (s.opened, c)).1,
        (if keeps mode dryRun (work (s.opened, c)).1 then kept else discarded,
          (work (s.opened, c)).2.2)) := by
  have hbegin := Session.begin_eq_opened hs
  cases hrun : work (s.opened, c) with
  | mk outcome after =>
      rw [hrun] at hrollBack hcommit
      cases mode with
      | autoCommit => exact absurd rfl hmode
      | alwaysRollBack =>
          cases outcome with
          | error f => simp [run, hbegin, hrun, discard, hrollBack, keeps]
          | ok a => simp [run, hbegin, hrun, finish, hrollBack, keeps]
      | guardedMutation =>
          cases outcome with
          | error f => simp [run, hbegin, hrun, discard, hrollBack, keeps]
          | ok a =>
              cases dryRun with
              | true => simp [run, hbegin, hrun, finish, hrollBack, keeps]
              | false => simp [run, hbegin, hrun, finish, hcommit, keeps]

/-- The law of a scope that opens a transaction. -/
theorem run_eq_of_contained
    {work : Work ρ α}
    (hwork : Contained work)
    {s : Session}
    (hs : s.transaction = none)
    {mode : Mode}
    (hmode : mode ≠ .autoCommit)
    (dryRun : Bool)
    (c : ρ) :
    run mode dryRun work (s, c) =
      ((work (s.opened, c)).1,
        (if keeps mode dryRun (work (s.opened, c)).1 then (work (s.opened, c)).2.1.settled else s,
          (work (s.opened, c)).2.2)) := by
  have hpending : Session.Pending s (work (s.opened, c)).2.1 :=
    hwork s s.opened c (Session.pending_opened s)
  exact run_eq_of_ends hs hmode dryRun c hpending.commit (hpending.rollBack hs)

end Scope

namespace Procedure

variable {ρ β : Type}

/-- A procedure without scopes stays within the transaction in which it runs. -/
theorem Flat.contained
    {p : Procedure ρ β}
    (hp : p.Flat) :
    Scope.Contained p.run := by
  induction p with
  | done result => exact fun _ _ _ h => h
  | aside act next ih =>
      intro start s c h
      exact ih (act c).1 (hp _) start s (act c).2 h
  | statement st next ih =>
      intro start s c h
      exact ih (st.exec s).1 (hp _) start _ c (h.step (st.step_exec s))
  | scope mode dryRun work next => exact hp.elim

/-- Without a transaction a procedure without scopes changes nothing but the committed contents and the
reference set. -/
theorem Flat.direct
    {p : Procedure ρ β}
    (hp : p.Flat)
    {s : Session}
    (hs : s.transaction = none)
    (c : ρ) :
    ∃ committed reference,
      (p.run (s, c)).2.1 = { s with committed := committed, reference := reference } := by
  induction p generalizing s c with
  | done result => exact ⟨_, _, rfl⟩
  | aside act next ih => exact ih (act c).1 (hp _) hs (act c).2
  | statement st next ih =>
      obtain ⟨committed, reference, hstep⟩ := Session.step_direct hs (st.step_exec s)
      have hnone : (st.exec s).2.transaction = none := by
        rw [hstep]
        exact hs
      obtain ⟨committed', reference', hrun⟩ := ih (st.exec s).1 (hp _) hnone c
      refine ⟨committed', reference', ?_⟩
      show ((next (st.exec s).1).run ((st.exec s).2, c)).2.1 = _
      rw [hrun, hstep]
  | scope mode dryRun work next => exact hp.elim

end Procedure

namespace Scope

variable {ρ α : Type}

/-- A scope around work without transaction control of its own returns the work's own outcome and leaves
no transaction open.  Where it keeps the changes, the contents and the reference set are those that the
work left, and all else is as it was; everywhere else nothing has changed. -/
theorem run_keeps_or_restores
    (p : Procedure ρ (Except Fault α))
    (hp : p.Flat)
    (s : Session)
    (hs : s.inTransaction = false)
    (mode : Mode)
    (dryRun : Bool)
    (c : ρ) :
    let own := p.run (mode.entry s, c)
    let after := run mode dryRun p.run (s, c)
    after.1 = own.1 ∧
    after.2.2 = own.2.2 ∧
    after.2.1.inTransaction = false ∧
    (keeps mode dryRun own.1 = true →
      after.2.1 =
        { s with committed := own.2.1.tables, reference := own.2.1.reference }) ∧
    (keeps mode dryRun own.1 = false → after.2.1 = s) := by
  have hnone : s.transaction = none := by
    simpa [Session.inTransaction] using hs
  by_cases hmode : mode = .autoCommit
  · subst hmode
    obtain ⟨committed, reference, hrun⟩ := hp.direct hnone c
    simp only [run, Mode.entry, keeps, hrun]
    simp [Session.inTransaction, Session.tables, hnone]
  · have hentry := Mode.entry_eq_opened hmode s
    have hpending := hp.contained s s.opened c (Session.pending_opened s)
    have hlaw := run_eq_of_contained hp.contained hnone hmode dryRun c
    simp only [hentry, hlaw, true_and]
    cases hkeeps : keeps mode dryRun (p.run (s.opened, c)).1 with
    | true => simp [hpending.settled_eq hnone, Session.inTransaction, hnone]
    | false => simp [hs]

/-- Work that blocks an address, tries to block it again, drops the log and succeeds. -/
def blockAndDrop : Procedure Unit (Except Fault Nat) :=
  .statement (.insertBlock (.text "192.0.2.1")) fun _ =>
    .statement (.insertBlock (.text "192.0.2.1")) fun _ =>
      .statement (.drop .events) fun _ => .done (.ok 7)

/-- An empty database. -/
def emptySession : Session :=
  { committed := .fresh, now := 0 }

/-- A production run keeps what the work did, and a scope that always rolls back none of it. -/
theorem blockAndDrop_kept_or_restored :
    blockAndDrop.Flat ∧
    emptySession.inTransaction = false ∧
    run .guardedMutation false blockAndDrop.run (emptySession, ()) =
      (.ok 7, ({ emptySession with committed := ⟨none, some [some "192.0.2.1"]⟩ }, ())) ∧
    (run .alwaysRollBack false blockAndDrop.run (emptySession, ())).2.1 = emptySession := by
  have hflat : blockAndDrop.Flat := fun _ _ _ => trivial
  have hkept := run_keeps_or_restores blockAndDrop hflat emptySession rfl .guardedMutation false ()
  have hrestored := run_keeps_or_restores blockAndDrop hflat emptySession rfl .alwaysRollBack false ()
  obtain ⟨houtcome, -, -, hafter, -⟩ := hkept
  refine ⟨hflat, rfl, ?_, hrestored.2.2.2.2 rfl⟩
  exact Prod.ext (houtcome.trans rfl) (Prod.ext ((hafter rfl).trans rfl) rfl)

end Scope
end AccessAudit
