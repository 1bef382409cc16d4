import AccessAudit.Proofs.Scope.Law

/-!
# Nested scopes

Both translations of a procedure are shown to run as the procedure itself: the
one by `Procedure.inside` on a session with an open transaction, which stays
open, and the one by `Procedure.outside` on a session without a transaction,
which has none afterwards either.

The inductions follow the procedures.  What carries them is whether a
transaction is open: no statement changes that, a scope that would open a second
transaction is refused, and a scope that opens the only one ends it.
-/

namespace AccessAudit

open Store (Session Tables)

/-! ### Statements and the open transaction -/

namespace Store.Session

theorem inTransaction_write
    {α : Type}
    (change : Tables → Except Store.Fault (Tables × α))
    (s : Session) :
    (s.write change).2.inTransaction = s.inTransaction := by
  cases hs : s.transaction with
  | none =>
      obtain ⟨committed, hwrite⟩ := write_direct change hs
      rw [hwrite]
      rfl
  | some t =>
      unfold write
      rw [hs]
      dsimp only
      split
      · rfl
      · split
        · simp [inTransaction, fixView]
        · split
          · simp [inTransaction, fixView]
          · split
            · simp [inTransaction, hs]
            · simp [inTransaction, hs]

/-- No statement opens or ends a transaction. -/
theorem inTransaction_step
    {s after : Session}
    (hstep : Statement.Step s after) :
    after.inTransaction = s.inTransaction := by
  cases hstep with
  | same => rfl
  | fixed => simp [inTransaction, fixView]
  | written change => exact inTransaction_write change s
  | referenced reference => rfl

end Store.Session

namespace Statement

variable {γ : Type} {s : Session}

theorem inTransaction_exec
    (st : Statement γ)
    (hs : s.inTransaction = true) :
    (st.exec s).2.inTransaction = true := by
  rw [Session.inTransaction_step (st.step_exec s), hs]

theorem transaction_exec
    (st : Statement γ)
    (hs : s.transaction = none) :
    (st.exec s).2.transaction = none := by
  obtain ⟨committed, reference, hstep⟩ := Session.step_direct hs (st.step_exec s)
  rw [hstep]
  exact hs

end Statement

/-! ### Procedures one after the other -/

namespace Procedure

variable {ρ β γ : Type}

/-- A procedure followed by another one runs as one after the other. -/
theorem run_bind
    (p : Procedure ρ β)
    (k : β → Procedure ρ γ)
    (state : Session × ρ) :
    (p.bind k).run state = (k (p.run state).1).run (p.run state).2 := by
  induction p generalizing state with
  | done result => rfl
  | aside act next ih =>
      obtain ⟨s, c⟩ := state
      exact ih (act c).1 k (s, (act c).2)
  | statement st next ih =>
      obtain ⟨s, c⟩ := state
      exact ih (st.exec s).1 k ((st.exec s).2, c)
  | scope mode dryRun work next _ ih =>
      exact ih (Scope.run mode dryRun work.run state).1 k (Scope.run mode dryRun work.run state).2

theorem Flat.bind
    {p : Procedure ρ β}
    (hp : p.Flat)
    {k : β → Procedure ρ γ}
    (hk : ∀ b, (k b).Flat) :
    (p.bind k).Flat := by
  induction p with
  | done result => exact hk result
  | aside act next ih => exact fun x => ih x (hp x) hk
  | statement st next ih => exact fun x => ih x (hp x) hk
  | scope mode dryRun work next => exact hp.elim

theorem Unnested.bind
    {p : Procedure ρ β}
    (hp : p.Unnested)
    {k : β → Procedure ρ γ}
    (hk : ∀ b, (k b).Unnested) :
    (p.bind k).Unnested := by
  induction p with
  | done result => exact hk result
  | aside act next ih => exact fun x => ih x (hp x) hk
  | statement st next ih => exact fun x => ih x (hp x) hk
  | scope mode dryRun work next _ ih =>
      obtain ⟨hmode, hwork, hnext⟩ := hp
      exact ⟨hmode, hwork, fun outcome => ih outcome (hnext outcome) hk⟩

/-- Within an open transaction no scope is left. -/
theorem flat_inside
    (p : Procedure ρ β) :
    p.inside.Flat := by
  induction p with
  | done result => trivial
  | aside act next ih => exact ih
  | statement st next ih => exact ih
  | scope mode dryRun work next ihWork ihNext =>
      cases mode with
      | autoCommit => exact ihWork.bind ihNext
      | guardedMutation => exact ihNext _
      | alwaysRollBack => exact ihNext _

/-- Without a transaction only scopes that open one are left, and none within another. -/
theorem unnested_outside
    (p : Procedure ρ β) :
    p.outside.Unnested := by
  induction p with
  | done result => trivial
  | aside act next ih => exact ih
  | statement st next ih => exact ih
  | scope mode dryRun work next ihWork ihNext =>
      cases mode with
      | autoCommit => exact ihWork.bind ihNext
      | guardedMutation => exact ⟨nofun, flat_inside work, ihNext⟩
      | alwaysRollBack => exact ⟨nofun, flat_inside work, ihNext⟩

/-! ### Within a transaction -/

/-- A procedure that is run within a transaction leaves it open. -/
theorem inTransaction_run
    (p : Procedure ρ β)
    {s : Session}
    (hs : s.inTransaction = true)
    (c : ρ) :
    (p.run (s, c)).2.1.inTransaction = true := by
  induction p generalizing s c with
  | done result => exact hs
  | aside act next ih => exact ih (act c).1 hs (act c).2
  | statement st next ih => exact ih (st.exec s).1 (st.inTransaction_exec hs) c
  | scope mode dryRun work next ihWork ihNext =>
      by_cases hmode : mode = .autoCommit
      · subst hmode
        exact ihNext (work.run (s, c)).1 (ihWork hs c) (work.run (s, c)).2.2
      · have hrefused := Scope.run_refused work.run hs hmode dryRun c
        simp only [run, hrefused]
        exact ihNext _ hs c

/-- Within a transaction the inner scopes that would open another one are refused, and the others are
run in place. -/
theorem run_inside
    (p : Procedure ρ β)
    {s : Session}
    (hs : s.inTransaction = true)
    (c : ρ) :
    p.inside.run (s, c) = p.run (s, c) := by
  induction p generalizing s c with
  | done result => rfl
  | aside act next ih => exact ih (act c).1 hs (act c).2
  | statement st next ih => exact ih (st.exec s).1 (st.inTransaction_exec hs) c
  | scope mode dryRun work next ihWork ihNext =>
      by_cases hmode : mode = .autoCommit
      · subst hmode
        have hwork : (work.run (s, c)).2.1.inTransaction = true := inTransaction_run work hs c
        simp only [inside, run_bind, ihWork hs c]
        exact ihNext (work.run (s, c)).1 hwork (work.run (s, c)).2.2
      · -- the work of the scope is dropped by the translation and not run by the scope
        have hrefused := Scope.run_refused work.run hs hmode dryRun c
        have hinside : (scope mode dryRun work next).inside =
            (next (.error Scope.refusal)).inside := by
          cases mode with
          | autoCommit => exact absurd rfl hmode
          | guardedMutation => rfl
          | alwaysRollBack => rfl
        simp only [hinside, run, hrefused]
        exact ihNext _ hs c

/-- A procedure stays within the transaction in which it runs, whatever scopes it has. -/
theorem contained
    (p : Procedure ρ β) :
    Scope.Contained p.run := by
  intro start s c h
  rw [← run_inside p h.inTransaction c]
  exact (flat_inside p).contained start s c h

/-- The run of a procedure in a state comes to a procedure `q` in the state `target`: to what is left of
it, or to what is left of the procedure of a scope that it runs. -/
inductive Visits {γ : Type} (q : Procedure ρ γ) (target : Session × ρ) :
    {β : Type} → Procedure ρ β → Session × ρ → Prop
  | here : Visits q target q target
  | aside {β δ : Type} {act : ρ → δ × ρ} {next : δ → Procedure ρ β} {s : Session} {c : ρ}
      (h : Visits q target (next (act c).1) (s, (act c).2)) :
      Visits q target (.aside act next) (s, c)
  | statement {β δ : Type} {st : Statement δ} {next : Except Store.Fault δ → Procedure ρ β}
      {s : Session} {c : ρ}
      (h : Visits q target (next (st.exec s).1) ((st.exec s).2, c)) :
      Visits q target (.statement st next) (s, c)
  | inPlace {β δ : Type} {dryRun : Bool} {work : Procedure ρ (Except Fault δ)}
      {next : Except Fault δ → Procedure ρ β} {state : Session × ρ}
      (h : Visits q target work state) :
      Visits q target (.scope .autoCommit dryRun work next) state
  | opened {β δ : Type} {mode : Mode} {dryRun : Bool} {work : Procedure ρ (Except Fault δ)}
      {next : Except Fault δ → Procedure ρ β} {s s' : Session} {c : ρ}
      (hmode : mode ≠ .autoCommit)
      (hbegin : s.begin = .ok s')
      (h : Visits q target work (s', c)) :
      Visits q target (.scope mode dryRun work next) (s, c)
  | ended {β δ : Type} {mode : Mode} {dryRun : Bool} {work : Procedure ρ (Except Fault δ)}
      {next : Except Fault δ → Procedure ρ β} {state : Session × ρ}
      (h : Visits q target (next (Scope.run mode dryRun work.run state).1)
        (Scope.run mode dryRun work.run state).2) :
      Visits q target (.scope mode dryRun work next) state

/-- Wherever a run within a transaction comes to, that transaction is still pending. -/
theorem Visits.pending
    {q : Procedure ρ γ}
    {target state : Session × ρ}
    {p : Procedure ρ β}
    (h : Visits q target p state)
    {start : Session}
    (hstart : Session.Pending start state.1) :
    Session.Pending start target.1 := by
  induction h with
  | here => exact hstart
  | aside _ ih => exact ih hstart
  | statement _ ih => exact ih (hstart.step (Statement.step_exec _ _))
  | inPlace _ ih => exact ih hstart
  | @opened _ _ _ _ _ _ s _ _ _ hbegin _ ih =>
      -- there is no second transaction to be opened
      obtain ⟨t, ht⟩ : ∃ t, s.transaction = some t := hstart.transaction_eq
      simp [Session.begin, ht] at hbegin
  | @ended _ _ mode dryRun work next state _ ih =>
      apply ih
      obtain ⟨s, c⟩ := state
      by_cases hmode : mode = .autoCommit
      · subst hmode
        exact work.contained start s c hstart
      · rw [Scope.run_refused work.run hstart.inTransaction hmode dryRun c]
        exact hstart

/-! ### Without a transaction -/

end Procedure

/-- A scope that opens a transaction looks at its work on the session with that transaction only. -/
theorem Scope.run_congr
    {ρ α : Type}
    {work work' : Work ρ α}
    {s : Session}
    (hs : s.transaction = none)
    {mode : Mode}
    (hmode : mode ≠ .autoCommit)
    (dryRun : Bool)
    (c : ρ)
    (hwork : work (s.opened, c) = work' (s.opened, c)) :
    run mode dryRun work (s, c) = run mode dryRun work' (s, c) := by
  have hbegin := Session.begin_eq_opened hs
  cases mode with
  | autoCommit => exact absurd rfl hmode
  | guardedMutation => simp only [run, hbegin, hwork]
  | alwaysRollBack => simp only [run, hbegin, hwork]

namespace Procedure

variable {ρ β γ : Type}

/-- The outermost scope that opens a transaction decides: kept or discarded is all that its procedure
did, inner scopes included. -/
theorem run_outermost
    (work : Procedure ρ (Except Fault γ))
    {s : Session}
    (hs : s.transaction = none)
    {mode : Mode}
    (hmode : mode ≠ .autoCommit)
    (dryRun : Bool)
    (c : ρ) :
    Scope.run mode dryRun work.run (s, c) =
      ((work.run (s.opened, c)).1,
        (if Scope.keeps mode dryRun (work.run (s.opened, c)).1
          then
            { s with
              committed := (work.run (s.opened, c)).2.1.tables
              reference := (work.run (s.opened, c)).2.1.reference }
          else s,
          (work.run (s.opened, c)).2.2)) := by
  have hinside : work.inside.run (s.opened, c) = work.run (s.opened, c) :=
    run_inside work rfl c
  have hcontained := (flat_inside work).contained
  have hpending := hcontained s s.opened c (Session.pending_opened s)
  rw [← Scope.run_congr hs hmode dryRun c hinside, Scope.run_eq_of_contained hcontained hs hmode,
    hpending.settled_eq hs, hinside]

theorem transaction_run_outermost
    (work : Procedure ρ (Except Fault γ))
    {s : Session}
    (hs : s.transaction = none)
    {mode : Mode}
    (hmode : mode ≠ .autoCommit)
    (dryRun : Bool)
    (c : ρ) :
    (Scope.run mode dryRun work.run (s, c)).2.1.transaction = none := by
  rw [run_outermost work hs hmode]
  dsimp only
  split
  · exact hs
  · exact hs

/-- Without a transaction a procedure leaves none open. -/
theorem transaction_run
    (p : Procedure ρ β)
    {s : Session}
    (hs : s.transaction = none)
    (c : ρ) :
    (p.run (s, c)).2.1.transaction = none := by
  induction p generalizing s c with
  | done result => exact hs
  | aside act next ih => exact ih (act c).1 hs (act c).2
  | statement st next ih => exact ih (st.exec s).1 (st.transaction_exec hs) c
  | scope mode dryRun work next ihWork ihNext =>
      have hscope : (Scope.run mode dryRun work.run (s, c)).2.1.transaction = none := by
        by_cases hmode : mode = .autoCommit
        · subst hmode
          exact ihWork hs c
        · exact transaction_run_outermost work hs hmode dryRun c
      exact ihNext (Scope.run mode dryRun work.run (s, c)).1 hscope
        (Scope.run mode dryRun work.run (s, c)).2.2

/-- Without a transaction a procedure runs as its outermost scopes that open one, one after the
other. -/
theorem run_outside
    (p : Procedure ρ β)
    {s : Session}
    (hs : s.transaction = none)
    (c : ρ) :
    p.outside.run (s, c) = p.run (s, c) := by
  induction p generalizing s c with
  | done result => rfl
  | aside act next ih => exact ih (act c).1 hs (act c).2
  | statement st next ih => exact ih (st.exec s).1 (st.transaction_exec hs) c
  | scope mode dryRun work next ihWork ihNext =>
      by_cases hmode : mode = .autoCommit
      · subst hmode
        have hwork : (work.run (s, c)).2.1.transaction = none := transaction_run work hs c
        simp only [outside, run_bind, ihWork hs c]
        exact ihNext (work.run (s, c)).1 hwork (work.run (s, c)).2.2
      · have houtside : (scope mode dryRun work next).outside =
            scope mode dryRun work.inside fun outcome => (next outcome).outside := by
          cases mode with
          | autoCommit => exact absurd rfl hmode
          | guardedMutation => rfl
          | alwaysRollBack => rfl
        -- the work of the scope starts with its transaction open, so it is translated by `inside`
        have hinside : work.inside.run (s.opened, c) = work.run (s.opened, c) :=
          run_inside work rfl c
        have hscope := transaction_run_outermost work hs hmode dryRun c
        simp only [houtside, run, Scope.run_congr hs hmode dryRun c hinside]
        exact ihNext (Scope.run mode dryRun work.run (s, c)).1 hscope
          (Scope.run mode dryRun work.run (s, c)).2.2

end Procedure
end AccessAudit
