import AccessAudit.Scope

/-!
# Procedures of statements and scopes

A procedure is a tree of what a piece of work does to a session: single
statements, steps on the state beside the session, and scopes with procedures of
their own.  What comes next may depend on every answer so far, so a procedure may
swallow the failure of a statement or of an inner scope, or end in it.  No
statement opens or ends a transaction; only scopes do.

Two translations do away with nesting.  `Procedure.inside` is for a session with
an open transaction: scopes that would open another one become their refusal,
and the others are run in place.  `Procedure.outside` is for a session without
one: scopes that open a transaction stay, and their procedures are translated
by `inside`.
-/

namespace AccessAudit

open Store (Cell Session Tables Event NewEvent Value TableName)

/-- A statement, with the kind of its answer. -/
inductive Statement : Type → Type
  | readTables : Statement Tables
  | readReference : Statement (List Int)
  | insertEvents (rows : List NewEvent) : Statement Nat
  | deleteEvents (selected : Event → Bool) : Statement Nat
  | insertBlock (entity : Value) : Statement Nat
  | deleteBlock (entity : Value) : Statement Nat
  | drop (table : TableName) : Statement Unit
  | createSchema : Statement Unit
  | compact : Statement Unit
  | clearReference : Statement Unit
  | addReference (ids : List Int) : Statement Unit

namespace Statement

/-- Adds ids to the reference set, which must be there and may have to be left alone. -/
def fill (ids : List Int) (s : Session) : Except Store.Fault Unit × Session :=
  if s.reference.isNone then (.error (.noSuchTable .reference), s)
  else if s.limits.queryOnly then (.error .readOnly, s)
  else (.ok (), s.addReference ids)

/-- Makes the reference set anew. -/
def clear (s : Session) : Except Store.Fault Unit × Session :=
  match s.clearReference with
  | .error e => (.error e, s)
  | .ok cleared => (.ok (), cleared)

/-- What a statement answers, and the session after it. -/
def exec {γ : Type} : Statement γ → Session → Except Store.Fault γ × Session
  | .readTables, s => (.ok s.tables, s.fixView)
  | .readReference, s => (s.getReference, s)
  | .insertEvents rows, s => s.insertEvents rows
  | .deleteEvents selected, s => s.deleteEvents selected
  | .insertBlock entity, s => s.insertBlock entity
  | .deleteBlock entity, s => s.deleteBlock entity
  | .drop table, s => s.drop table
  | .createSchema, s => s.createSchema
  | .compact, s => s.compact
  | .clearReference, s => clear s
  | .addReference ids, s => fill ids s

/-- What a statement can do to a session: nothing, fix its contents, change its contents once, or
change its reference set. -/
inductive Step (s : Session) : Session → Prop
  | same : Step s s
  | fixed : Step s s.fixView
  | written {α : Type} (change : Tables → Except Store.Fault (Tables × α)) :
      Step s (s.write change).2
  | referenced (reference : Option (List Int)) : Step s { s with reference := reference }

theorem step_writeEvents
    {α : Type}
    (change : List Event → Except Store.Fault (List Event × α))
    (s : Session) :
    Step s (s.writeEvents change).2 := by
  unfold Session.writeEvents
  split
  · exact .same
  · exact .written _

theorem step_writeBlocks
    {α : Type}
    (change : List (Option Cell) → Except Store.Fault (List (Option Cell) × α))
    (s : Session) :
    Step s (s.writeBlocks change).2 := by
  unfold Session.writeBlocks
  split
  · exact .same
  · exact .written _

theorem step_drop
    (table : TableName)
    (s : Session) :
    Step s (s.drop table).2 := by
  cases table with
  | events =>
      simp only [Session.drop]
      split
      · exact .same
      · exact .written _
  | blocks =>
      simp only [Session.drop]
      split
      · exact .same
      · exact .written _
  | reference =>
      simp only [Session.drop]
      split
      · exact .same
      · split
        · exact .same
        · exact .referenced none

/-- Every statement, whether or not it succeeds, makes one of these steps. -/
theorem step_exec
    {γ : Type}
    (st : Statement γ)
    (s : Session) :
    Step s (st.exec s).2 := by
  cases st with
  | readTables => exact .fixed
  | readReference => exact .same
  | insertEvents rows => exact step_writeEvents _ s
  | deleteEvents selected => exact step_writeEvents _ s
  | insertBlock entity => exact step_writeBlocks _ s
  | deleteBlock entity => exact step_writeBlocks _ s
  | drop table => exact step_drop table s
  | createSchema =>
      simp only [exec, Session.createSchema]
      split
      · exact .fixed
      · exact .written _
  | compact =>
      simp only [exec, Session.compact]
      split
      · exact .same
      · exact .written _
  | clearReference =>
      simp only [exec, clear, Session.clearReference]
      cases s.limits.queryOnly with
      | true => exact .same
      | false => exact .referenced _
  | addReference ids =>
      simp only [exec, fill]
      split
      · exact .same
      · split
        · exact .same
        · exact .referenced _

end Statement

/-- A procedure that acts on a session and on other state, with the kind of its result. -/
inductive Procedure (ρ : Type) : Type → Type 1
  | done {β : Type} (result : β) : Procedure ρ β
  | aside {β γ : Type} (act : ρ → γ × ρ) (next : γ → Procedure ρ β) : Procedure ρ β
  | statement {β γ : Type} (st : Statement γ)
      (next : Except Store.Fault γ → Procedure ρ β) : Procedure ρ β
  | scope {β γ : Type} (mode : Mode) (dryRun : Bool) (work : Procedure ρ (Except Fault γ))
      (next : Except Fault γ → Procedure ρ β) : Procedure ρ β

/-- The failure of a scope that cannot be opened because a transaction is open. -/
def Scope.refusal : Fault :=
  (Fault.ofStore .alreadyInTransaction).within .openTransaction

namespace Procedure

variable {ρ β γ : Type}

/-- Runs a procedure. -/
def run : {β : Type} → Procedure ρ β → Session × ρ → β × (Session × ρ)
  | _, .done result, state => (result, state)
  | _, .aside act next, (s, c) =>
      let (x, c) := act c
      (next x).run (s, c)
  | _, .statement st next, (s, c) =>
      let (x, s) := st.exec s
      (next x).run (s, c)
  | _, .scope mode dryRun work next, state =>
      let (outcome, state) := Scope.run mode dryRun work.run state
      (next outcome).run state

/-- A procedure followed by another one, chosen by its result. -/
def bind : {β : Type} → Procedure ρ β → (β → Procedure ρ γ) → Procedure ρ γ
  | _, .done result, k => k result
  | _, .aside act next, k => .aside act fun x => (next x).bind k
  | _, .statement st next, k => .statement st fun x => (next x).bind k
  | _, .scope mode dryRun work next, k =>
      .scope mode dryRun work fun outcome => (next outcome).bind k

/-- The procedure as it acts within an open transaction, without scopes. -/
def inside : {β : Type} → Procedure ρ β → Procedure ρ β
  | _, .done result => .done result
  | _, .aside act next => .aside act fun x => (next x).inside
  | _, .statement st next => .statement st fun x => (next x).inside
  | _, .scope .autoCommit _ work next => work.inside.bind fun outcome => (next outcome).inside
  | _, .scope .guardedMutation _ _ next => (next (.error Scope.refusal)).inside
  | _, .scope .alwaysRollBack _ _ next => (next (.error Scope.refusal)).inside

/-- The procedure as it acts on a session without a transaction: only its outermost scopes that open one
are left, one after the other. -/
def outside : {β : Type} → Procedure ρ β → Procedure ρ β
  | _, .done result => .done result
  | _, .aside act next => .aside act fun x => (next x).outside
  | _, .statement st next => .statement st fun x => (next x).outside
  | _, .scope .autoCommit _ work next => work.outside.bind fun outcome => (next outcome).outside
  | _, .scope .guardedMutation dryRun work next =>
      .scope .guardedMutation dryRun work.inside fun outcome => (next outcome).outside
  | _, .scope .alwaysRollBack dryRun work next =>
      .scope .alwaysRollBack dryRun work.inside fun outcome => (next outcome).outside

/-- There is no scope in the procedure. -/
def Flat : {β : Type} → Procedure ρ β → Prop
  | _, .done _ => True
  | _, .aside _ next => ∀ x, (next x).Flat
  | _, .statement _ next => ∀ x, (next x).Flat
  | _, .scope _ _ _ _ => False

/-- Every scope of the procedure opens a transaction, and there is no scope within it. -/
def Unnested : {β : Type} → Procedure ρ β → Prop
  | _, .done _ => True
  | _, .aside _ next => ∀ x, (next x).Unnested
  | _, .statement _ next => ∀ x, (next x).Unnested
  | _, .scope mode _ work next =>
      mode ≠ .autoCommit ∧ work.Flat ∧ ∀ outcome, (next outcome).Unnested

end Procedure
end AccessAudit
