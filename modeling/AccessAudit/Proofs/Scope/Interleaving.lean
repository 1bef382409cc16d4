import AccessAudit.Proofs.Scope.Law

/-!
# Two connections

Between the statements of a procedure another connection may log rows.  A schedule
tells which inserts it attempts before each statement and after the last one, and
the deeds of a run are the statements and the attempts in the order in which they
happened, with their answers.

A statement that succeeds within a transaction does to the contents that it sees
what it would do to them without a transaction, and with the same answer.  One that
fails does nothing to them.
-/

namespace AccessAudit

open Store (Cell Session Tables Event NewEvent Transaction)

namespace Store

/-- The contents with further rows in the log. -/
def Tables.logging (new : List Event) (t : Tables) : Tables :=
  { t with events := t.events.map fun events => events ++ new }

@[simp] theorem Tables.logging_nil
    (t : Tables) :
    t.logging [] = t := by
  simp [logging]

theorem Tables.logging_logging
    (first second : List Event)
    (t : Tables) :
    (t.logging first).logging second = t.logging (first ++ second) := by
  simp [logging, Function.comp_def]

namespace Session

/-- The session of a connection with an open transaction. -/
def within (start : Session) (committed : Tables) (reference : Option (List Int))
    (t : Transaction) : Session :=
  { start with committed := committed, reference := reference, transaction := some t }

/-- The session of a connection without a transaction. -/
def without (start : Session) (committed : Tables) (reference : Option (List Int)) : Session :=
  { start with committed := committed, reference := reference, transaction := none }

theorem settled_within
    (start : Session)
    (committed : Tables)
    (reference : Option (List Int))
    (t : Transaction) :
    (start.within committed reference t).settled =
      start.without (t.view.getD committed) reference :=
  rfl

theorem eq_without
    {s : Session}
    (hs : s.transaction = none) :
    s.without s.committed s.reference = s := by
  simp only [without]
  rw [← hs]

@[simp] theorem tables_settled
    (s : Session) :
    s.settled.tables = s.tables :=
  rfl

@[simp] theorem settled_fixView
    (s : Session) :
    s.fixView.settled = s.settled := by
  simp only [settled, tables_fixView]
  rfl

/-! ### Inserts of another connection -/

section Elsewhere

variable {s : Session}

/-- The session after another connection has logged rows. -/
def joined (new : List Event) (s : Session) : Session :=
  { s with
    committed := s.committed.logging new
    transaction :=
      s.transaction.map fun t =>
        { t with overtaken := t.overtaken || (t.view.isSome && !new.isEmpty) } }

/-- An insert of another connection is refused and changes nothing, or all of its rows are logged, and
then nobody has written within an open transaction. -/
theorem insertElsewhere_cases
    (rows : List NewEvent)
    (s : Session) :
    (∃ f, s.insertElsewhere rows = (.error f, s)) ∨
    (∃ new,
      s.committed.events.isSome = true ∧
      (∀ t, s.transaction = some t → t.writing = false) ∧
      rows.mapM (NewEvent.stored s.now) = .ok new ∧
      s.insertElsewhere rows = (.ok new.length, s.joined new)) := by
  cases hevents : s.committed.events with
  | none => exact Or.inl ⟨.noSuchTable .events, by simp only [insertElsewhere, hevents]⟩
  | some events =>
      by_cases hwriting : (s.transaction.map (·.writing)).getD false = true
      · refine Or.inl ⟨.locked, ?_⟩
        simp only [insertElsewhere, hevents, hwriting, if_true]
      · cases hnew : rows.mapM (NewEvent.stored s.now) with
        | error f =>
            refine Or.inl ⟨f, ?_⟩
            simp only [insertElsewhere, hevents, hwriting, hnew]
            rfl
        | ok new =>
            refine Or.inr ⟨new, rfl, ?_, rfl, ?_⟩
            · intro t ht
              simpa [ht] using hwriting
            · simp only [insertElsewhere, hevents, hwriting, hnew, joined, Tables.logging]
              rfl

/-- What an insert is answered without a transaction that could be in its way. -/
theorem answer_insertElsewhere
    (rows : List NewEvent)
    {start : Session}
    (hstart : start.transaction = none)
    (hnow : s.now = start.now)
    (hlogged : s.committed.events.isSome = start.committed.events.isSome) :
    (s.insertElsewhere rows).1 = (start.insertElsewhere rows).1 ∨
    ((s.insertElsewhere rows).1 = .error .locked ∧ ∃ t, s.transaction = some t ∧ t.writing = true) := by
  cases hevents : s.committed.events with
  | none =>
      have hnone : start.committed.events = none := by
        simpa [hevents] using hlogged.symm
      exact Or.inl (by simp only [insertElsewhere, hevents, hnone])
  | some events =>
      obtain ⟨logged, hsome⟩ : ∃ logged, start.committed.events = some logged :=
        Option.isSome_iff_exists.mp (by simp [← hlogged, hevents])
      by_cases hwriting : (s.transaction.map (·.writing)).getD false = true
      · refine Or.inr ⟨by simp only [insertElsewhere, hevents, hwriting, if_true], ?_⟩
        cases ht : s.transaction with
        | none => simp [ht] at hwriting
        | some t => exact ⟨t, rfl, by simpa [ht] using hwriting⟩
      · refine Or.inl ?_
        simp only [insertElsewhere, hevents, hsome, hwriting, hstart, hnow]
        cases rows.mapM (NewEvent.stored start.now) <;> rfl

/-- The reference set of a session is no matter of another connection. -/
theorem insertElsewhere_withReference
    (rows : List NewEvent)
    (s : Session)
    (reference : Option (List Int)) :
    Session.insertElsewhere rows { s with reference := reference } =
      ((s.insertElsewhere rows).1, { (s.insertElsewhere rows).2 with reference := reference }) := by
  unfold insertElsewhere
  dsimp only
  split
  · rfl
  · split
    · rfl
    · split <;> rfl

end Elsewhere

/-! ### Writing within a transaction -/

section Writing

variable {α : Type} {s : Session} {t : Transaction}

/-- The session whose transaction has written these contents. -/
def holding (view : Tables) (t : Transaction) (s : Session) : Session :=
  { s with transaction := some { t with view := some view, writing := true } }

/-- A change within a transaction. -/
theorem write_within
    (hs : s.transaction = some t)
    (change : Tables → Except Fault (Tables × α)) :
    s.write change =
      if s.limits.queryOnly then (.error .readOnly, s)
      else if s.limits.readOnlyFile then (.error .readOnly, s.fixView)
      else if t.overtaken = true ∧ t.writing = false then (.error .locked, s.fixView)
      else
        match change s.tables with
        | .error f => (.error f, s.holding s.tables t)
        | .ok (new, a) => (.ok a, s.holding new t) := by
  have htables : s.fixView.tables = s.tables := tables_fixView s
  unfold write
  simp only [hs, htables, Bool.not_eq_true']
  rfl

/-- A change without a transaction. -/
theorem write_without
    (hs : s.transaction = none)
    (change : Tables → Except Fault (Tables × α)) :
    s.write change =
      if s.limits.queryOnly then (.error .readOnly, s)
      else if s.limits.readOnlyFile then (.error .readOnly, s)
      else
        match change s.committed with
        | .error f => (.error f, s)
        | .ok (new, a) => (.ok a, { s with committed := new }) := by
  obtain ⟨committed, reference, transaction, limits, networks, now⟩ := s
  obtain rfl : transaction = none := hs
  rfl

end Writing

/-! ### Transparent statements -/

/-- Within a transaction a statement does to what is seen what it does without one, or fails and does
nothing to it; and if it succeeds without fixing the contents it does not depend on them. -/
structure Transparent {α : Type} (f : Session → Except Fault α × Session) (s : Session) : Prop where
  direct : ∀ a, (f s).1 = .ok a → f s.settled = (.ok a, (f s).2.settled)
  harmless : ∀ e, (f s).1 = .error e → (f s).2.settled = s.settled
  blind : ∀ a u, (f s).1 = .ok a → (f s).2.transaction = some u → u.view = none →
    ∀ committed,
      f (s.without committed s.reference) =
        (.ok a, (f s).2.without committed (f s).2.reference)

section Transparent

variable {α : Type} {s after : Session} {t : Transaction} {f : Session → Except Fault α × Session}

/-- A statement that fails is transparent if it leaves what is seen. -/
theorem transparent_of_error
    {e : Fault}
    (h : f s = (.error e, after))
    (hafter : after.settled = s.settled) :
    Transparent f s where
  direct := by
    intro a ha
    rw [h] at ha
    cases ha
  harmless := by
    intro e' _
    rw [h]
    exact hafter
  blind := by
    intro a u ha
    rw [h] at ha
    cases ha

/-- A statement that succeeds is transparent if it fixes the contents and does what it does without a
transaction. -/
theorem transparent_of_ok
    {a : α}
    (h : f s = (.ok a, after))
    (hdirect : f s.settled = (.ok a, after.settled))
    (hview : ∀ u, after.transaction = some u → u.view ≠ none) :
    Transparent f s where
  direct := by
    intro b hb
    rw [h] at hb ⊢
    cases hb
    exact hdirect
  harmless := by
    intro e he
    rw [h] at he
    cases he
  blind := by
    intro b u _ hu hnone
    rw [h] at hu
    exact absurd hnone (hview u hu)

/-- A statement that succeeds is transparent if it does the same on any contents and leaves them. -/
theorem transparent_of_blind
    {a : α}
    (h : f s = (.ok a, after))
    (htables : after.tables = s.tables)
    (hblind : ∀ committed,
      f (s.without committed s.reference) = (.ok a, after.without committed after.reference)) :
    Transparent f s where
  direct := by
    intro b hb
    rw [h] at hb ⊢
    cases hb
    refine (hblind s.tables).trans ?_
    rw [← htables]
    rfl
  harmless := by
    intro e he
    rw [h] at he
    cases he
  blind := by
    intro b u hb _ _ committed
    rw [h] at hb ⊢
    cases hb
    exact hblind committed

/-- A statement that comes to a change of the contents is transparent. -/
theorem transparent_of_write
    (hs : s.transaction = some t)
    {change : Tables → Except Fault (Tables × α)}
    (h : f s = s.write change)
    (hsettled : f s.settled = s.settled.write change) :
    Transparent f s := by
  have hwrite := h.trans (write_within hs change)
  have hdirect := hsettled.trans (write_without rfl change)
  have hlimits : s.settled.limits = s.limits := rfl
  have hseen : s.settled.committed = s.tables := rfl
  rw [hlimits, hseen] at hdirect
  by_cases hquery : s.limits.queryOnly = true
  · rw [if_pos hquery] at hwrite
    exact transparent_of_error hwrite rfl
  rw [if_neg hquery] at hwrite hdirect
  by_cases hfile : s.limits.readOnlyFile = true
  · rw [if_pos hfile] at hwrite
    exact transparent_of_error hwrite (settled_fixView s)
  rw [if_neg hfile] at hwrite hdirect
  by_cases hlate : t.overtaken = true ∧ t.writing = false
  · rw [if_pos hlate] at hwrite
    exact transparent_of_error hwrite (settled_fixView s)
  rw [if_neg hlate] at hwrite
  cases hchange : change s.tables with
  | error e =>
      rw [hchange] at hwrite
      exact transparent_of_error hwrite rfl
  | ok made =>
      rw [hchange] at hwrite hdirect
      refine transparent_of_ok hwrite hdirect ?_
      rintro u ⟨⟩
      nofun

theorem transparent_of_writeEvents
    (hs : s.transaction = some t)
    {change : List Event → Except Fault (List Event × α)}
    (h : f s = s.writeEvents change)
    (hsettled : f s.settled = s.settled.writeEvents change) :
    Transparent f s := by
  unfold writeEvents at h hsettled
  rw [tables_settled] at hsettled
  cases hevents : s.tables.events with
  | none =>
      rw [hevents] at h
      exact transparent_of_error h rfl
  | some events =>
      rw [hevents] at h hsettled
      exact transparent_of_write hs h hsettled

theorem transparent_of_writeBlocks
    (hs : s.transaction = some t)
    {change : List (Option Cell) → Except Fault (List (Option Cell) × α)}
    (h : f s = s.writeBlocks change)
    (hsettled : f s.settled = s.settled.writeBlocks change) :
    Transparent f s := by
  unfold writeBlocks at h hsettled
  rw [tables_settled] at hsettled
  cases hblocks : s.tables.blocks with
  | none =>
      rw [hblocks] at h
      exact transparent_of_error h rfl
  | some blocks =>
      rw [hblocks] at h hsettled
      exact transparent_of_write hs h hsettled

end Transparent

end Session
end Store

namespace Statement

open Store.Session

variable {γ : Type} {s : Session} {t : Transaction}

theorem transparent_drop
    (hs : s.transaction = some t)
    (table : Store.TableName) :
    Transparent (Session.drop table) s := by
  cases table with
  | events =>
      by_cases hnone : s.tables.events.isNone = true
      · exact transparent_of_error (if_pos hnone) rfl
      · exact transparent_of_write hs (if_neg hnone) (if_neg hnone)
  | blocks =>
      by_cases hnone : s.tables.blocks.isNone = true
      · exact transparent_of_error (if_pos hnone) rfl
      · exact transparent_of_write hs (if_neg hnone) (if_neg hnone)
  | reference =>
      by_cases hnone : s.reference.isNone = true
      · exact transparent_of_error (if_pos hnone) rfl
      · by_cases hquery : s.limits.queryOnly = true
        · exact transparent_of_error ((if_neg hnone).trans (if_pos hquery)) rfl
        · exact transparent_of_blind ((if_neg hnone).trans (if_neg hquery)) rfl fun _ =>
            (if_neg hnone).trans (if_neg hquery)

/-- Every statement is transparent. -/
theorem transparent_exec
    (hs : s.transaction = some t)
    (st : Statement γ) :
    Transparent st.exec s := by
  cases st with
  | readTables =>
      refine transparent_of_ok rfl ?_ ?_
      · simp only [exec, tables_settled, settled_fixView, fixView_eq_self (s := s.settled) rfl]
      · simp [fixView, hs]
  | readReference =>
      cases hreference : s.getReference with
      | error e => exact transparent_of_error (congrArg (·, s) hreference) rfl
      | ok ids =>
          exact transparent_of_blind (congrArg (·, s) hreference) rfl fun _ =>
            congrArg (·, _) hreference
  | insertEvents rows => exact transparent_of_writeEvents hs rfl rfl
  | deleteEvents selected => exact transparent_of_writeEvents hs rfl rfl
  | insertBlock entity => exact transparent_of_writeBlocks hs rfl rfl
  | deleteBlock entity => exact transparent_of_writeBlocks hs rfl rfl
  | drop table => 
      have h := transparent_drop hs table
      exact ⟨h.direct, h.harmless, h.blind⟩
  | createSchema =>
      by_cases hboth : s.tables.events.isSome ∧ s.tables.blocks.isSome
      · refine transparent_of_ok (if_pos hboth) ?_ ?_
        · exact (if_pos hboth).trans
            (by rw [settled_fixView, fixView_eq_self (s := s.settled) rfl])
        · simp [fixView, hs]
      · exact transparent_of_write hs (if_neg hboth) (if_neg hboth)
  | compact =>
      refine transparent_of_error (if_pos ?_) rfl
      simp [inTransaction, hs]
  | clearReference =>
      cases hquery : s.limits.queryOnly with
      | true =>
          have hclear : clear s = (.error .readOnly, s) := by
            simp only [clear, Session.clearReference, hquery, if_true]
          exact transparent_of_error hclear rfl
      | false =>
          have hclear : ∀ d : Session, d.limits.queryOnly = false →
              clear d = (.ok (), { d with reference := some [] }) := by
            intro d hd
            simp only [clear, Session.clearReference, hd, Bool.false_eq_true, if_false]
          exact transparent_of_blind (hclear s hquery) rfl fun committed =>
            hclear (s.without committed s.reference) hquery
  | addReference ids =>
      by_cases hnone : s.reference.isNone = true
      · exact transparent_of_error (if_pos hnone) rfl
      · by_cases hquery : s.limits.queryOnly = true
        · exact transparent_of_error ((if_neg hnone).trans (if_pos hquery)) rfl
        · exact transparent_of_blind ((if_neg hnone).trans (if_neg hquery)) rfl fun _ =>
            (if_neg hnone).trans (if_neg hquery)

/-- What becomes of a transaction by a statement: it stays, its contents are fixed, or it has written, which
it may not after it was overtaken. -/
structure Moves (seen : Tables) (t u : Transaction) : Prop where
  referenceBefore : u.referenceBefore = t.referenceBefore
  overtaken : u.overtaken = t.overtaken
  contents :
    (u.view = t.view ∧ u.writing = t.writing) ∨
    (u.view = some seen ∧ u.writing = t.writing) ∨
    (u.view.isSome = true ∧ u.writing = true ∧ (t.overtaken = true → t.writing = true))

/-- A statement within a transaction moves it and may change the reference set, and nothing else. -/
theorem exec_within
    (hs : s.transaction = some t)
    (st : Statement γ) :
    ∃ reference u,
      (st.exec s).2 = s.within s.committed reference u ∧ Moves s.tables t u := by
  have hself : s = s.within s.committed s.reference t := by
    simp only [within]
    rw [← hs]
  have hfix : s.fixView = s.within s.committed s.reference { t with view := some s.tables } := by
    simp only [fixView, hs]
    rfl
  have hstays : Moves s.tables t t := ⟨rfl, rfl, Or.inl ⟨rfl, rfl⟩⟩
  have hfixed : Moves s.tables t { t with view := some s.tables } :=
    ⟨rfl, rfl, Or.inr (Or.inl ⟨rfl, rfl⟩)⟩
  have hstep := st.step_exec s
  generalize (st.exec s).2 = after at hstep ⊢
  cases hstep with
  | same => exact ⟨s.reference, t, hself, hstays⟩
  | fixed => exact ⟨s.reference, _, hfix, hfixed⟩
  | referenced reference =>
      refine ⟨reference, t, ?_, hstays⟩
      simp only [within]
      rw [← hs]
  | written change =>
      have hwrite := write_within hs change
      by_cases hquery : s.limits.queryOnly = true
      · rw [if_pos hquery] at hwrite
        rw [hwrite]
        exact ⟨s.reference, t, hself, hstays⟩
      rw [if_neg hquery] at hwrite
      by_cases hfile : s.limits.readOnlyFile = true
      · rw [if_pos hfile] at hwrite
        rw [hwrite]
        exact ⟨s.reference, _, hfix, hfixed⟩
      rw [if_neg hfile] at hwrite
      by_cases hlate : t.overtaken = true ∧ t.writing = false
      · rw [if_pos hlate] at hwrite
        rw [hwrite]
        exact ⟨s.reference, _, hfix, hfixed⟩
      rw [if_neg hlate] at hwrite
      have hright : t.overtaken = true → t.writing = true := by
        intro hovertaken
        cases hwriting : t.writing with
        | true => rfl
        | false => exact absurd ⟨hovertaken, hwriting⟩ hlate
      have hheld : ∀ view, Moves s.tables t { t with view := some view, writing := true } :=
        fun view => ⟨rfl, rfl, Or.inr (Or.inr ⟨rfl, rfl, hright⟩)⟩
      cases hchange : change s.tables with
      | error e =>
          rw [hchange] at hwrite
          rw [hwrite]
          exact ⟨s.reference, _, rfl, hheld s.tables⟩
      | ok made =>
          rw [hchange] at hwrite
          rw [hwrite]
          exact ⟨s.reference, _, rfl, hheld made.1⟩

/-- Whether a statement only reads. -/
def reads {γ : Type} : Statement γ → Bool
  | .readTables | .readReference => true
  | _ => false

end Statement

/-- What happened on one of the two connections, with the answer. -/
inductive Deed : Type 1
  | own {γ : Type} (st : Statement γ) (answer : Except Store.Fault γ)
  | elsewhere (rows : List NewEvent) (answer : Except Store.Fault Nat)

namespace Deed

/-- A statement that succeeded. -/
def isDone : Deed → Bool
  | .own _ (.ok _) => true
  | _ => false

/-- An insert of the other connection that it was told to have succeeded. -/
def isTold : Deed → Bool
  | .elsewhere _ (.ok _) => true
  | _ => false

/-- The attempts of the other connection, one after the other. -/
def attempts : List (List NewEvent) → Session → List Deed × Session
  | [], s => ([], s)
  | rows :: rest, s =>
      let (answer, s) := s.insertElsewhere rows
      let (deeds, s) := attempts rest s
      (.elsewhere rows answer :: deeds, s)

end Deed

/-- Deeds take a session to another one if they are done one after the other and each gets its answer. -/
inductive Serial : List Deed → Session → Session → Prop
  | nil {s : Session} : Serial [] s s
  | own {γ : Type} {st : Statement γ} {answer : Except Store.Fault γ} {deeds : List Deed}
      {s after : Session} (first : (st.exec s).1 = answer)
      (rest : Serial deeds (st.exec s).2 after) : Serial (.own st answer :: deeds) s after
  | elsewhere {rows : List NewEvent} {answer : Except Store.Fault Nat} {deeds : List Deed}
      {s after : Session} (first : (s.insertElsewhere rows).1 = answer)
      (rest : Serial deeds (s.insertElsewhere rows).2 after) :
      Serial (.elsewhere rows answer :: deeds) s after

namespace Procedure

variable {ρ β : Type}

/-- Runs a procedure while another connection attempts to log rows: before each statement what the schedule
has for it, and in the end what is left. -/
def amid : {β : Type} → Procedure ρ β → List (List (List NewEvent)) → Session × ρ →
    (β × (Session × ρ)) × List Deed
  | _, .done result, schedule, (s, c) =>
      let (deeds, s) := Deed.attempts schedule.flatten s
      ((result, (s, c)), deeds)
  | _, .aside act next, schedule, (s, c) =>
      let (x, c) := act c
      (next x).amid schedule (s, c)
  | _, .statement st next, schedule, (s, c) =>
      let (before, s) := Deed.attempts (schedule.headD []) s
      let (x, s) := st.exec s
      let (told, deeds) := (next x).amid schedule.tail (s, c)
      (told, before ++ .own st x :: deeds)
  | _, .scope mode dryRun work next, schedule, state =>
      let (outcome, state) := Scope.run mode dryRun work.run state
      (next outcome).amid schedule state

/-- Every statement of the procedure is of a certain kind, and there is no scope in it. -/
def Uses (kind : ∀ {γ : Type}, Statement γ → Bool) : {β : Type} → Procedure ρ β → Prop
  | _, .done _ => True
  | _, .aside _ next => ∀ x, (next x).Uses kind
  | _, .statement st next => kind st = true ∧ ∀ x, (next x).Uses kind
  | _, .scope _ _ _ _ => False

end Procedure
end AccessAudit
