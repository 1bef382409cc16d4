import AccessAudit.Proofs.Scope.Procedure

/-!
# What a transaction can undo

A session is pending over another one if it came from it by opening a
transaction and by statements: what is committed, the limits, the local
networks and the clock are untouched, the transaction remembers the reference
set, and without the right to write it has seen nothing but the committed
contents.

Every statement keeps a pending session pending, so a rollback restores the
session in which the transaction was opened, and a commit differs from it in
the contents and the reference set only.
-/

namespace AccessAudit
namespace Store
namespace Session

/-- The session with a transaction just opened. -/
def opened (s : Session) : Session :=
  { s with transaction := some { referenceBefore := s.reference } }

/-- The session with everything committed that its statements see. -/
def settled (s : Session) : Session :=
  { s with committed := s.tables, transaction := none }

/-- `s` came from `start` by opening a transaction and by statements within it. -/
structure Pending (start s : Session) : Prop where
  frame : ∃ reference t, s = { start with reference := reference, transaction := some t }
  remembers : ∀ t, s.transaction = some t → t.referenceBefore = start.reference
  unwritten : ∀ t, s.transaction = some t → t.writing = false → s.tables = start.committed

theorem begin_eq_opened
    {s : Session}
    (hs : s.transaction = none) :
    s.begin = .ok s.opened := by
  simp [begin, opened, hs]

theorem pending_opened
    (s : Session) :
    Pending s s.opened where
  frame := ⟨s.reference, _, rfl⟩
  remembers := by
    rintro t ⟨⟩
    rfl
  unwritten := by
    rintro t ⟨⟩ -
    rfl

section Preservation

variable {start s : Session}

/-- Fixing the contents of a pending session keeps it pending. -/
theorem Pending.fixView
    (h : Pending start s) :
    Pending start s.fixView := by
  obtain ⟨reference, t, rfl⟩ := h.frame
  refine ⟨⟨reference, _, rfl⟩, ?_, ?_⟩
  · rintro u ⟨⟩
    exact h.remembers t rfl
  · rintro u ⟨⟩ hu
    rw [tables_fixView]
    exact h.unwritten t rfl hu

/-- A pending session stays pending when its reference set changes. -/
theorem Pending.withReference
    (h : Pending start s)
    (reference : Option (List Int)) :
    Pending start { s with reference := reference } := by
  obtain ⟨old, t, rfl⟩ := h.frame
  exact ⟨⟨reference, t, rfl⟩, h.remembers, h.unwritten⟩

/-- A pending session stays pending when its transaction has written. -/
theorem Pending.written
    (h : Pending start s)
    {t : Transaction}
    (ht : s.transaction = some t)
    (view : Tables) :
    Pending start
      { s with transaction := some { t with view := some view, writing := true } } := by
  obtain ⟨reference, u, rfl⟩ := h.frame
  cases ht
  refine ⟨⟨reference, _, rfl⟩, ?_, ?_⟩
  · rintro v ⟨⟩
    exact h.remembers t rfl
  · rintro v ⟨⟩ hv
    cases hv

theorem Pending.transaction_eq
    (h : Pending start s) :
    ∃ t, s.transaction = some t := by
  obtain ⟨reference, t, rfl⟩ := h.frame
  exact ⟨t, rfl⟩

theorem Pending.inTransaction
    (h : Pending start s) :
    s.inTransaction = true := by
  obtain ⟨t, ht⟩ := h.transaction_eq
  simp [Session.inTransaction, ht]

/-- A change of the contents keeps a pending session pending, whether or not it succeeds. -/
theorem Pending.write
    {α : Type}
    (change : Tables → Except Fault (Tables × α))
    (h : Pending start s) :
    Pending start (s.write change).2 := by
  obtain ⟨t, ht⟩ := h.transaction_eq
  have hfix : s.fixView.transaction = some { t with view := some s.tables } := by
    simp [Session.fixView, ht]
  unfold Session.write
  rw [ht]
  dsimp only
  split
  · exact h
  · split
    · exact h.fixView
    · split
      · exact h.fixView
      · split
        · exact h.fixView.written hfix _
        · exact h.fixView.written hfix _

/-- Every step of a statement keeps a pending session pending. -/
theorem Pending.step
    {after : Session}
    (h : Pending start s)
    (hstep : Statement.Step s after) :
    Pending start after := by
  cases hstep with
  | same => exact h
  | fixed => exact h.fixView
  | written change => exact h.write change
  | referenced reference => exact h.withReference reference

end Preservation

/-! ### The end of a transaction -/

section Ending

variable {start s : Session}

/-- A rollback restores the session in which the transaction was opened. -/
theorem Pending.rollBack
    (hstart : start.transaction = none)
    (h : Pending start s) :
    s.rollBack = .ok start := by
  obtain ⟨reference, t, rfl⟩ := h.frame
  have hr : t.referenceBefore = start.reference := h.remembers t rfl
  obtain ⟨committed, reference', transaction, limits, localNetworks, now⟩ := start
  cases hstart
  simp only [Session.rollBack, hr]

/-- A commit makes permanent what the statements of the transaction see. -/
theorem Pending.commit
    (h : Pending start s) :
    s.commit = .ok s.settled := by
  obtain ⟨reference, t, rfl⟩ := h.frame
  have hw := h.unwritten t rfl
  cases ht : t.writing with
  | true => simp [Session.commit, Session.settled, ht]
  | false =>
      rw [ht] at hw
      simp [Session.commit, Session.settled, ht, hw rfl]

/-- A settled session differs from the start in the contents and the reference set only. -/
theorem Pending.settled_eq
    (hstart : start.transaction = none)
    (h : Pending start s) :
    s.settled = { start with committed := s.tables, reference := s.reference } := by
  obtain ⟨reference, t, rfl⟩ := h.frame
  simp only [settled, hstart]

end Ending

/-! ### Without a transaction -/

section Immediate

variable {s : Session}

theorem fixView_eq_self
    (hs : s.transaction = none) :
    s.fixView = s := by
  simp only [fixView, hs, Option.map_none]
  rw [← hs]

/-- Without a transaction a change of the contents touches nothing but the committed contents. -/
theorem write_direct
    {α : Type}
    (change : Tables → Except Fault (Tables × α))
    (hs : s.transaction = none) :
    ∃ committed, (s.write change).2 = { s with committed := committed } := by
  obtain ⟨committed, reference, transaction, limits, localNetworks, now⟩ := s
  cases hs
  unfold write
  dsimp only
  split
  · exact ⟨committed, rfl⟩
  · split
    · exact ⟨committed, rfl⟩
    · split
      · exact ⟨committed, rfl⟩
      · exact ⟨_, rfl⟩

/-- Without a transaction a statement takes effect at once, on the committed contents and the reference
set, and opens none. -/
theorem step_direct
    {after : Session}
    (hs : s.transaction = none)
    (hstep : Statement.Step s after) :
    ∃ committed reference,
      after = { s with committed := committed, reference := reference } := by
  cases hstep with
  | same => exact ⟨_, _, rfl⟩
  | fixed => exact ⟨_, _, fixView_eq_self hs⟩
  | written change =>
      obtain ⟨committed, h⟩ := write_direct change hs
      exact ⟨committed, s.reference, h⟩
  | referenced reference => exact ⟨_, reference, rfl⟩

end Immediate

end Session
end Store
end AccessAudit
