import AccessAudit.Proofs.Scope.Interleaving
import AccessAudit.Store.Disk

/-!
# Scopes among the inserts of another connection

While a scope is open another connection may attempt to log rows between its
statements.  The contents that the scope sees are fixed at its first access, and
the right to write is taken by its first change.  So the inserts that succeeded
fall into earlier ones, before the contents were fixed, and later ones.  A change
is possible only while what is fixed is still what is committed, and after it no
insert succeeds; then the later inserts have added nothing and count as earlier.

Hence whatever the scope keeps stands, in some serial order, between the earlier
and the later inserts.
-/

namespace AccessAudit

open Store (Session Tables Event NewEvent Transaction)

namespace Serial

variable {deeds before after : List Deed} {s t u : Session}

theorem append
    (hst : Serial before s t)
    (htu : Serial after t u) :
    Serial (before ++ after) s u := by
  induction hst with
  | nil => exact htu
  | own first _ ih => exact .own first (ih htu)
  | elsewhere first _ ih => exact .elsewhere first (ih htu)

theorem eq_of_nil
    (h : Serial [] s t) :
    t = s := by
  cases h
  rfl

/-- Inserts of another connection take no notice of the reference set of a session. -/
theorem withReference
    (h : Serial deeds s t)
    (hdeeds : ∀ deed ∈ deeds, deed.isTold = true)
    (reference : Option (List Int)) :
    Serial deeds { s with reference := reference } { t with reference := reference } := by
  induction h with
  | nil => exact .nil
  | own first rest =>
      have htold := hdeeds _ List.mem_cons_self
      cases htold
  | @elsewhere rows answer deeds s t first rest ih =>
      have hinsert := Session.insertElsewhere_withReference rows s reference
      refine .elsewhere (by rw [hinsert, first]) ?_
      rw [hinsert]
      exact ih fun deed hmem => hdeeds deed (List.mem_cons_of_mem _ hmem)

end Serial

/-! ### The deeds of a run -/

/-- The rows that a deed of the other connection is about. -/
def Deed.rows : Deed → List NewEvent
  | .own _ _ => []
  | .elsewhere rows _ => rows

/-- Whether a deed is a statement that only reads, or one of the other connection. -/
def Deed.isHarmless : Deed → Bool
  | .own st _ => st.reads
  | .elsewhere _ _ => true

theorem mapM_stored_append
    {now : Int}
    {first second : List NewEvent}
    {new more : List Event}
    (hfirst : first.mapM (NewEvent.stored now) = .ok new)
    (hsecond : second.mapM (NewEvent.stored now) = .ok more) :
    (first ++ second).mapM (NewEvent.stored now) = .ok (new ++ more) := by
  rw [List.mapM_append, hfirst, hsecond]
  rfl

/-- Inserts that the other connection was told to have succeeded have logged all of their rows. -/
theorem Serial.logging
    {deeds : List Deed}
    {s t : Session}
    (h : Serial deeds s t)
    (hs : s.transaction = none)
    (hdeeds : ∀ deed ∈ deeds, deed.isTold = true) :
    ∃ new,
      (deeds.flatMap Deed.rows).mapM (NewEvent.stored s.now) = .ok new ∧
      t = { s with committed := s.committed.logging new } := by
  induction h with
  | nil => exact ⟨[], rfl, by simp⟩
  | own first rest =>
      have htold := hdeeds _ List.mem_cons_self
      cases htold
  | @elsewhere rows answer deeds s t first rest ih =>
      have htold := hdeeds _ List.mem_cons_self
      have hmore : ∀ deed ∈ deeds, deed.isTold = true := fun deed hmem =>
        hdeeds deed (List.mem_cons_of_mem _ hmem)
      rcases Session.insertElsewhere_cases rows s with ⟨f, hinsert⟩ | ⟨new, -, -, hnew, hinsert⟩
      · rw [hinsert] at first
        rw [← first] at htold
        cases htold
      · have hjoined : s.joined new = { s with committed := s.committed.logging new } := by
          simp only [Session.joined, hs, Option.map_none]
        rw [hinsert, hjoined] at ih
        obtain ⟨more, hstored, rfl⟩ := ih hs hmore
        refine ⟨new ++ more, ?_, ?_⟩
        · rw [List.flatMap_cons]
          exact mapM_stored_append hnew hstored
        · rw [Tables.logging_logging]

/-- Statements that only read leave a session without a transaction as it is and see its contents. -/
theorem Serial.reading
    {deeds : List Deed}
    {s t : Session}
    (h : Serial deeds s t)
    (hs : s.transaction = none)
    (hdeeds : ∀ deed ∈ deeds, deed.isHarmless = true ∧ deed.isDone = true) :
    ∀ answer, Deed.own .readTables answer ∈ deeds → answer = .ok s.committed := by
  induction h with
  | nil => exact nofun
  | elsewhere first rest =>
      have hdone := (hdeeds _ List.mem_cons_self).2
      cases hdone
  | @own γ st x deeds s t first rest ih =>
      have hreads : st.reads = true := (hdeeds _ List.mem_cons_self).1
      have hmore : ∀ deed ∈ deeds, deed.isHarmless = true ∧ deed.isDone = true :=
        fun deed hmem => hdeeds deed (List.mem_cons_of_mem _ hmem)
      have hstays : (st.exec s).2 = s := by
        cases st with
        | readTables => exact Session.fixView_eq_self hs
        | readReference => rfl
        | _ => cases hreads
      rw [hstays] at ih
      intro answer hmem
      rcases List.mem_cons.mp hmem with heq | hmem
      · cases heq
        rw [← first]
        simp only [Statement.exec, Session.tables, hs]
      · exact ih hs hmore answer hmem

/-! ### A scope under way -/

/-- How far a scope that was opened on `start` has come, with these committed contents, this reference set
and this transaction: which inserts come before the contents that it has seen, which come after them, and
what its own statements have done to them. -/
structure Underway (start : Session) (earlier later own : List Deed) (seen committed : Tables)
    (reference : Option (List Int)) (t : Transaction) : Prop where
  remembers : t.referenceBefore = start.reference
  logged : committed.events.isSome = start.committed.events.isSome
  before : Serial earlier (start.without start.committed start.reference)
    (start.without seen start.reference)
  after : Serial later (start.without seen start.reference)
    (start.without committed start.reference)
  work : Serial own (start.without seen start.reference)
    (start.without (t.view.getD committed) reference)
  unwritten : t.writing = false → t.view.getD committed = seen
  current : t.overtaken = false → committed = seen
  alone : t.writing = true → later = []
  unfixed : t.view = none →
    t.writing = false ∧ later = [] ∧
    ∀ contents, Serial own (start.without contents start.reference)
      (start.without contents reference)

/-- A scope on `start` is under way with these inserts and these statements. -/
def Proceeds (start : Session) (told own : List Deed) (s : Session) : Prop :=
  ∃ earlier later seen committed reference t,
    earlier ++ later = told ∧
    s = start.within committed reference t ∧
    Underway start earlier later own seen committed reference t

namespace Underway

variable {start : Session} {earlier later own : List Deed} {seen committed : Tables}
  {reference : Option (List Int)} {t : Transaction}

/-- As long as no insert came after what was seen, that is what is committed. -/
theorem committed_of_nil
    (h : Underway start earlier [] own seen committed reference t) :
    committed = seen :=
  congrArg Session.committed h.after.eq_of_nil

/-- The right to write is taken only while what was seen is still what is committed. -/
theorem committed_of_right
    (h : Underway start earlier later own seen committed reference t)
    (hright : t.overtaken = true → t.writing = true) :
    committed = seen := by
  cases hovertaken : t.overtaken with
  | false => exact h.current hovertaken
  | true =>
      have hlater := h.alone (hright hovertaken)
      subst hlater
      exact h.committed_of_nil

/-- What a statement does to the contents that are seen, it does to them without a transaction. -/
theorem work_exec
    {γ : Type}
    (h : Underway start earlier later own seen committed reference t)
    (st : Statement γ)
    {reference' : Option (List Int)}
    {u : Transaction}
    (hafter : (st.exec (start.within committed reference t)).2 = start.within committed reference' u) :
    Serial
      (own ++ [Deed.own st (st.exec (start.within committed reference t)).1].filter Deed.isDone)
      (start.without seen start.reference)
      (start.without (u.view.getD committed) reference') := by
  have hs : (start.within committed reference t).transaction = some t := rfl
  have htransparent := Statement.transparent_exec hs st
  have hsettled : (st.exec (start.within committed reference t)).2.settled =
      start.without (u.view.getD committed) reference' := by
    rw [hafter]
    rfl
  rw [← hsettled]
  cases hanswer : (st.exec (start.within committed reference t)).1 with
  | error e =>
      rw [htransparent.harmless e hanswer, Session.settled_within]
      simpa [Deed.isDone] using h.work
  | ok a =>
      have hdirect := htransparent.direct a hanswer
      refine h.work.append (.own (congrArg Prod.fst hdirect) ?_)
      rw [show st.exec (start.without (t.view.getD committed) reference) = _ from hdirect]
      exact .nil

/-- As long as no contents are fixed, it does the same to any contents. -/
theorem unfixed_exec
    {γ : Type}
    (h : Underway start earlier later own seen committed reference t)
    (st : Statement γ)
    {reference' : Option (List Int)}
    {u : Transaction}
    (hafter : (st.exec (start.within committed reference t)).2 = start.within committed reference' u)
    (ht : t.view = none)
    (hu : u.view = none)
    (contents : Tables) :
    Serial
      (own ++ [Deed.own st (st.exec (start.within committed reference t)).1].filter Deed.isDone)
      (start.without contents start.reference)
      (start.without contents reference') := by
  have hs : (start.within committed reference t).transaction = some t := rfl
  have htransparent := Statement.transparent_exec hs st
  have hown := (h.unfixed ht).2.2 contents
  cases hanswer : (st.exec (start.within committed reference t)).1 with
  | error e =>
      have hsame : (st.exec (start.within committed reference t)).2.reference = reference :=
        congrArg Session.reference (htransparent.harmless e hanswer)
      rw [hafter] at hsame
      rw [show reference' = reference from hsame]
      simpa [Deed.isDone] using hown
  | ok a =>
      have hdirect := htransparent.blind a u hanswer (congrArg Session.transaction hafter) hu contents
      rw [hafter] at hdirect
      refine hown.append (.own (congrArg Prod.fst hdirect) ?_)
      rw [show st.exec (start.without contents reference) = _ from hdirect]
      exact .nil

/-- A statement of the scope. -/
theorem exec
    {γ : Type}
    (h : Underway start earlier later own seen committed reference t)
    (st : Statement γ) :
    let told := st.exec (start.within committed reference t)
    Proceeds start (earlier ++ later) (own ++ [Deed.own st told.1].filter Deed.isDone) told.2 := by
  intro told
  have hs : (start.within committed reference t).transaction = some t := rfl
  obtain ⟨reference', u, hafter, hmoves⟩ := Statement.exec_within hs st
  have hwork := h.work_exec st hafter
  have hblind := h.unfixed_exec st hafter
  have hremembers : u.referenceBefore = start.reference :=
    hmoves.referenceBefore.trans h.remembers
  have hcurrent : u.overtaken = false → committed = seen := by
    rw [hmoves.overtaken]
    exact h.current
  rcases hmoves.contents with ⟨hview, hwriting⟩ | ⟨hview, hwriting⟩ | ⟨hview, hwriting, hright⟩
  · -- nothing has happened to the transaction
    refine ⟨earlier, later, seen, committed, reference', u, rfl, hafter,
      hremembers, h.logged, h.before, h.after, hwork, ?_, hcurrent, ?_, ?_⟩
    · rw [hwriting, hview]
      exact h.unwritten
    · rw [hwriting]
      exact h.alone
    · intro hu
      have ht : t.view = none := by rw [← hview, hu]
      rw [hwriting]
      exact ⟨(h.unfixed ht).1, (h.unfixed ht).2.1, hblind ht hu⟩
  · -- the contents have been fixed
    refine ⟨earlier, later, seen, committed, reference', u, rfl, hafter,
      hremembers, h.logged, h.before, h.after, hwork, ?_, hcurrent, ?_, ?_⟩
    · rw [hwriting, hview]
      exact h.unwritten
    · rw [hwriting]
      exact h.alone
    · intro hu
      rw [hu] at hview
      cases hview
  · -- the transaction has written: from here on the later inserts count as earlier ones
    have hseen : committed = seen := h.committed_of_right hright
    refine ⟨earlier ++ later, [], seen, committed, reference', u, List.append_nil _, hafter,
      hremembers, h.logged, ?_, ?_, hwork, ?_, hcurrent, fun _ => rfl, ?_⟩
    · have hall := h.before.append h.after
      rwa [hseen] at hall
    · rw [hseen]
      exact .nil
    · rw [hwriting]
      nofun
    · intro hu
      rw [hu] at hview
      cases hview

/-- An insert of the other connection, as it is done on contents without a transaction. -/
theorem serial_insert
    (start : Session)
    {rows : List NewEvent}
    {new : List Event}
    (hlogged : committed.events.isSome = true)
    (hnew : rows.mapM (NewEvent.stored start.now) = .ok new)
    (reference : Option (List Int)) :
    Serial [.elsewhere rows (.ok new.length)] (start.without committed reference)
      (start.without (committed.logging new) reference) := by
  obtain ⟨events, hevents⟩ := Option.isSome_iff_exists.mp hlogged
  have hinsert : (start.without committed reference).insertElsewhere rows =
      (.ok new.length, start.without (committed.logging new) reference) := by
    simp only [Session.insertElsewhere, Session.without, hevents, hnew, Tables.logging]
    rfl
  refine .elsewhere (congrArg Prod.fst hinsert) ?_
  rw [hinsert]
  exact .nil

/-- An attempt of the other connection. -/
theorem insert
    (h : Underway start earlier later own seen committed reference t)
    (rows : List NewEvent) :
    let told := (start.within committed reference t).insertElsewhere rows
    Proceeds start (earlier ++ later ++ [Deed.elsewhere rows told.1].filter Deed.isTold) own told.2 := by
  intro told
  rcases Session.insertElsewhere_cases rows (start.within committed reference t) with
    ⟨f, hinsert⟩ | ⟨new, hlogged, hwriting, hnew, hinsert⟩
  · have htold : told = (.error f, start.within committed reference t) := hinsert
    rw [htold]
    exact ⟨earlier, later, seen, committed, reference, t, (List.append_nil _).symm, rfl, h⟩
  · have hfree : t.writing = false := hwriting t rfl
    have htold : told = (.ok new.length, (start.within committed reference t).joined new) := hinsert
    have hserial := serial_insert start hlogged hnew start.reference
    have hlogged' : (committed.logging new).events.isSome = start.committed.events.isSome := by
      rw [← h.logged]
      simp [Tables.logging]
    rw [htold]
    cases hview : t.view with
    | none =>
        -- nothing is fixed, so the insert is an earlier one
        obtain ⟨-, rfl, hblind⟩ := h.unfixed hview
        have hseen := h.committed_of_nil
        subst hseen
        refine ⟨earlier ++ [.elsewhere rows (.ok new.length)], [], committed.logging new,
          committed.logging new, reference, _, ?_, rfl, h.remembers, hlogged', h.before.append hserial,
          .nil, ?_, ?_, fun _ => rfl, fun _ => rfl, fun _ => ⟨hfree, rfl, hblind⟩⟩
        · rw [List.append_nil, List.append_nil]
          rfl
        · simpa [hview] using hblind (committed.logging new)
        · simp [hview]
    | some view =>
        refine ⟨earlier, later ++ [.elsewhere rows (.ok new.length)], seen,
          committed.logging new, reference, _, ?_, rfl, h.remembers, hlogged', h.before,
          h.after.append hserial, ?_, ?_, ?_, ?_, ?_⟩
        · exact (List.append_assoc earlier later _).symm
        · simpa [hview] using h.work
        · intro _
          simpa [hview] using h.unwritten hfree
        · intro hovertaken
          simp only [hview, Option.isSome_some, Bool.true_and, Bool.or_eq_false_iff,
            Bool.not_eq_false', List.isEmpty_iff] at hovertaken
          obtain ⟨hbefore, rfl⟩ := hovertaken
          rw [Tables.logging_nil]
          exact h.current hbefore
        · intro hwritten
          rw [hfree] at hwritten
          cases hwritten
        · intro hnone
          rw [hview] at hnone
          cases hnone

end Underway

namespace Proceeds

variable {start s : Session} {told own : List Deed}

theorem opened
    (start : Session) :
    Proceeds start [] [] start.opened := by
  refine ⟨[], [], start.committed, start.committed, start.reference,
    { referenceBefore := start.reference }, rfl, rfl, rfl, rfl, .nil, .nil, .nil, fun _ => rfl,
    fun _ => rfl, fun _ => rfl, fun _ => ⟨rfl, rfl, fun _ => .nil⟩⟩

theorem exec
    {γ : Type}
    (h : Proceeds start told own s)
    (st : Statement γ) :
    Proceeds start told (own ++ [Deed.own st (st.exec s).1].filter Deed.isDone) (st.exec s).2 := by
  obtain ⟨earlier, later, seen, committed, reference, t, rfl, rfl, hunderway⟩ := h
  exact hunderway.exec st

theorem insert
    (h : Proceeds start told own s)
    (rows : List NewEvent) :
    Proceeds start (told ++ [Deed.elsewhere rows (s.insertElsewhere rows).1].filter Deed.isTold) own
      (s.insertElsewhere rows).2 := by
  obtain ⟨earlier, later, seen, committed, reference, t, rfl, rfl, hunderway⟩ := h
  exact hunderway.insert rows

theorem attempts
    (h : Proceeds start told own s)
    (attempted : List (List NewEvent)) :
    Proceeds start (told ++ (Deed.attempts attempted s).1.filter Deed.isTold)
      (own ++ (Deed.attempts attempted s).1.filter Deed.isDone) (Deed.attempts attempted s).2 := by
  induction attempted generalizing s told own with
  | nil => simpa [Deed.attempts] using h
  | cons rows rest ih =>
      have hrest := ih (h.insert rows)
      simp only [Deed.attempts]
      rw [List.append_assoc, ← List.filter_append] at hrest
      simpa [Deed.isDone] using hrest

/-- The procedure of a scope keeps it under way, whatever the other connection attempts. -/
theorem amid
    {ρ β : Type}
    {p : Procedure ρ β}
    (hp : p.Flat)
    (h : Proceeds start told own s)
    (schedule : List (List (List NewEvent)))
    (c : ρ) :
    let run := p.amid schedule (s, c)
    Proceeds start (told ++ run.2.filter Deed.isTold) (own ++ run.2.filter Deed.isDone) run.1.2.1 := by
  induction p generalizing s told own schedule c with
  | done result => exact h.attempts schedule.flatten
  | aside act next ih => exact ih (act c).1 (hp _) h schedule (act c).2
  | statement st next ih =>
      let before := Deed.attempts (schedule.headD []) s
      let told' := st.exec before.2
      let rest := (next told'.1).amid schedule.tail (told'.2, c)
      have hrest := ih told'.1 (hp _) ((h.attempts (schedule.headD [])).exec st) schedule.tail c
      intro run
      have hdeeds : run.2 = before.1 ++ ([Deed.own st told'.1] ++ rest.2) := rfl
      have htold : run.2.filter Deed.isTold =
          before.1.filter Deed.isTold ++ rest.2.filter Deed.isTold := by
        rw [hdeeds, List.filter_append, List.filter_append]
        rfl
      have hdone : run.2.filter Deed.isDone =
          before.1.filter Deed.isDone ++
            ([Deed.own st told'.1].filter Deed.isDone ++ rest.2.filter Deed.isDone) := by
        rw [hdeeds, List.filter_append, List.filter_append]
      rw [htold, hdone, ← List.append_assoc, ← List.append_assoc, ← List.append_assoc]
      exact hrest
  | scope mode dryRun work next => exact hp.elim

/-! ### The end of a scope -/

/-- A scope that is discarded leaves what the other connection has logged. -/
theorem rollBack
    (h : Proceeds start told own s)
    (hstart : start.transaction = none) :
    ∃ committed, s.rollBack = .ok { start with committed := committed } ∧
      Serial told start { start with committed := committed } := by
  obtain ⟨earlier, later, seen, committed, reference, t, rfl, rfl, hunderway⟩ := h
  have hend : start.without committed start.reference = { start with committed := committed } := by
    simp only [Session.without, hstart]
  refine ⟨committed, ?_, ?_⟩
  · rw [← hend]
    simp only [Session.rollBack, Session.within, Session.without, hunderway.remembers]
  · have hserial := hunderway.before.append hunderway.after
    rwa [Session.eq_without hstart, hend] at hserial

/-- A scope that is kept leaves what its statements and the inserts leave in some serial order. -/
theorem commit
    (h : Proceeds start told own s)
    (hstart : start.transaction = none)
    (htold : ∀ deed ∈ told, deed.isTold = true) :
    ∃ earlier later worked kept,
      earlier ++ later = told ∧
      s.commit = .ok kept ∧
      worked.transaction = none ∧
      worked.now = start.now ∧
      Serial (earlier ++ own) start worked ∧
      Serial later worked kept := by
  obtain ⟨earlier, later, seen, committed, reference, t, rfl, rfl, hunderway⟩ := h
  have hlater : ∀ deed ∈ later, deed.isTold = true := fun deed hmem =>
    htold deed (List.mem_append_right earlier hmem)
  have hbefore := hunderway.before
  rw [Session.eq_without hstart] at hbefore
  refine ⟨earlier, later, start.without (t.view.getD committed) reference,
    start.without (if t.writing then t.view.getD committed else committed) reference, rfl, ?_, rfl, rfl,
    hbefore.append hunderway.work, ?_⟩
  · simp only [Session.commit, Session.within, Session.without, Session.tables]
  · cases hwriting : t.writing with
    | true =>
        have hnone := hunderway.alone hwriting
        subst hnone
        exact .nil
    | false =>
        rw [hunderway.unwritten hwriting]
        exact hunderway.after.withReference hlater reference

/-- The contents that a scope sees, as long as it only reads. -/
theorem reading
    (h : Proceeds start told own s)
    (hstart : start.transaction = none)
    (hown : ∀ deed ∈ own, deed.isHarmless = true ∧ deed.isDone = true) :
    ∃ earlier later seen,
      earlier ++ later = told ∧
      Serial earlier start { start with committed := seen } ∧
      ∀ answer, Deed.own .readTables answer ∈ own → answer = .ok seen := by
  obtain ⟨earlier, later, seen, committed, reference, t, rfl, rfl, hunderway⟩ := h
  refine ⟨earlier, later, seen, rfl, ?_, hunderway.work.reading rfl hown⟩
  have hbefore := hunderway.before
  rw [Session.eq_without hstart] at hbefore
  simpa only [Session.without, hstart] using hbefore

end Proceeds

/-! ### Answers -/

section Answers

variable {P : Session → Prop} {Q : Deed → Prop}

theorem Deed.attempts_forall
    (hinsert : ∀ rows s, P s →
      Q (.elsewhere rows (s.insertElsewhere rows).1) ∧ P (s.insertElsewhere rows).2)
    (attempted : List (List NewEvent))
    {s : Session}
    (hs : P s) :
    (∀ deed ∈ (Deed.attempts attempted s).1, Q deed) ∧ P (Deed.attempts attempted s).2 := by
  induction attempted generalizing s with
  | nil => exact ⟨nofun, hs⟩
  | cons rows rest ih =>
      obtain ⟨hfirst, hafter⟩ := hinsert rows s hs
      obtain ⟨hrest, hend⟩ := ih hafter
      refine ⟨?_, hend⟩
      intro deed hmem
      rcases List.mem_cons.mp hmem with rfl | hmem
      · exact hfirst
      · exact hrest deed hmem

/-- What every single deed guarantees holds of all deeds of a run. -/
theorem Procedure.amid_forall
    {ρ β : Type}
    {kind : ∀ {γ : Type}, Statement γ → Bool}
    (hinsert : ∀ rows s, P s →
      Q (.elsewhere rows (s.insertElsewhere rows).1) ∧ P (s.insertElsewhere rows).2)
    (hexec : ∀ {γ : Type} (st : Statement γ) (s : Session), kind st = true → P s →
      Q (.own st (st.exec s).1) ∧ P (st.exec s).2)
    {p : Procedure ρ β}
    (hp : p.Uses kind)
    (schedule : List (List (List NewEvent)))
    {s : Session}
    (hs : P s)
    (c : ρ) :
    ∀ deed ∈ (p.amid schedule (s, c)).2, Q deed := by
  induction p generalizing schedule s c with
  | done result => exact (Deed.attempts_forall hinsert schedule.flatten hs).1
  | aside act next ih => exact ih (act c).1 (hp _) schedule hs (act c).2
  | statement st next ih =>
      obtain ⟨hbefore, hmet⟩ := Deed.attempts_forall hinsert (schedule.headD []) hs
      obtain ⟨hown, hafter⟩ := hexec st _ hp.1 hmet
      intro deed hmem
      rcases List.mem_append.mp hmem with hmem | hmem
      · exact hbefore deed hmem
      · rcases List.mem_cons.mp hmem with rfl | hmem
        · exact hown
        · exact ih _ (hp.2 _) schedule.tail hafter c deed hmem
  | scope mode dryRun work next => exact hp.elim

theorem Procedure.Flat.uses
    {ρ β : Type}
    {p : Procedure ρ β}
    (hp : p.Flat) :
    p.Uses fun _ => true := by
  induction p with
  | done result => trivial
  | aside act next ih => exact fun x => ih x (hp x)
  | statement st next ih => exact ⟨rfl, fun x => ih x (hp x)⟩
  | scope mode dryRun work next => exact hp.elim

/-- A session within a transaction on `start` to which others have only added rows, and which has not
written itself unless it may. -/
def Open (start : Session) (writes : Bool) (s : Session) : Prop :=
  ∃ committed reference t,
    s = start.within committed reference t ∧
    committed.events.isSome = start.committed.events.isSome ∧
    (writes = false → t.writing = false)

theorem Open.insert
    {start s : Session}
    {writes : Bool}
    (h : Open start writes s)
    (rows : List NewEvent) :
    Open start writes (s.insertElsewhere rows).2 := by
  rcases Session.insertElsewhere_cases rows s with ⟨f, hinsert⟩ | ⟨new, -, -, -, hinsert⟩
  · rw [hinsert]
    exact h
  · obtain ⟨committed, reference, t, rfl, hlogged, hwriting⟩ := h
    rw [hinsert]
    refine ⟨committed.logging new, reference, _, rfl, ?_, hwriting⟩
    rw [← hlogged]
    simp [Tables.logging]

theorem Open.exec
    {start s : Session}
    {writes : Bool}
    (h : Open start writes s)
    {γ : Type}
    (st : Statement γ)
    (hst : (writes || st.reads) = true) :
    Open start writes (st.exec s).2 := by
  obtain ⟨committed, reference, t, rfl, hlogged, hwriting⟩ := h
  cases writes with
  | true =>
      obtain ⟨reference', u, hafter, -⟩ :=
        Statement.exec_within (s := start.within committed reference t) (t := t) rfl st
      exact ⟨committed, reference', u, hafter, hlogged, nofun⟩
  | false =>
      cases st with
      | readTables => exact ⟨committed, reference, _, rfl, hlogged, hwriting⟩
      | readReference => exact ⟨committed, reference, t, rfl, hlogged, hwriting⟩
      | _ => cases hst

/-- Every insert is answered as it would be alone, unless the work may write and holds the right to. -/
theorem answers_amid
    {ρ β : Type}
    (writes : Bool)
    {p : Procedure ρ β}
    (hp : p.Uses fun st => writes || st.reads)
    {start : Session}
    (hstart : start.transaction = none)
    (schedule : List (List (List NewEvent)))
    (c : ρ) :
    ∀ rows answer, Deed.elsewhere rows answer ∈ (p.amid schedule (start.opened, c)).2 →
      answer = (start.insertElsewhere rows).1 ∨ (writes = true ∧ answer = .error .locked) := by
  let Q : Deed → Prop := fun deed => ∀ rows answer, deed = .elsewhere rows answer →
    answer = (start.insertElsewhere rows).1 ∨ (writes = true ∧ answer = .error .locked)
  have hall : ∀ deed ∈ (p.amid schedule (start.opened, c)).2, Q deed := by
    refine Procedure.amid_forall (P := Open start writes) ?_ ?_ hp schedule ?_ c
    · intro rows s hs
      refine ⟨?_, hs.insert rows⟩
      rintro rows answer ⟨⟩
      obtain ⟨committed, reference, t, rfl, hlogged, hwriting⟩ := hs
      rcases Session.answer_insertElsewhere rows hstart (s := start.within committed reference t)
        rfl hlogged with halone | ⟨hlocked, u, ⟨rfl⟩, hu⟩
      · exact Or.inl halone
      · refine Or.inr ⟨?_, hlocked⟩
        cases hwrites : writes with
        | true => rfl
        | false =>
            rw [hwriting hwrites] at hu
            cases hu
    · intro γ st s hst hs
      exact ⟨nofun, hs.exec st hst⟩
    · exact ⟨start.committed, start.reference, _, rfl, rfl, fun _ => rfl⟩
  intro rows answer hmem
  exact hall _ hmem rows answer rfl

/-- The deeds of work that only reads. -/
theorem harmless_amid
    {ρ β : Type}
    {p : Procedure ρ β}
    (hp : p.Uses Statement.reads)
    (schedule : List (List (List NewEvent)))
    (state : Session × ρ) :
    ∀ deed ∈ (p.amid schedule state).2, deed.isHarmless = true ∧
      ∀ answer, deed = .own .readTables answer → deed.isDone = true := by
  refine Procedure.amid_forall (P := fun _ => True) ?_ ?_ hp schedule trivial state.2
  · exact fun rows s _ => ⟨⟨rfl, nofun⟩, trivial⟩
  · intro γ st s hst _
    refine ⟨⟨hst, ?_⟩, trivial⟩
    rintro answer heq
    cases heq
    rfl

end Answers

namespace Scope

variable {ρ α : Type}

/-- A scope that opens a transaction, with another connection that attempts to log rows before, between and
after the statements of its work, has the outcome of the work and leaves no transaction open.  The session
ends as some serial order of the deeds leaves it, in which what is kept of the work stands between inserts.
So whatever the other connection was told is logged remains logged, unless work that is kept has removed
it. -/
theorem run_amid_inserts
    (p : Procedure ρ (Except Fault α))
    (hp : p.Flat)
    (s : Session)
    (hs : s.inTransaction = false)
    (mode : Mode)
    (hmode : mode ≠ .autoCommit)
    (dryRun : Bool)
    (schedule : List (List (List NewEvent)))
    (c : ρ) :
    let own := p.amid schedule (s.opened, c)
    let deeds := own.2
    let told := deeds.filter Deed.isTold
    let after := run mode dryRun (fun state => (p.amid schedule state).1) (s, c)
    let kept := keeps mode dryRun own.1.1
    after.1 = own.1.1 ∧
    after.2.2 = own.1.2.2 ∧
    after.2.1.inTransaction = false ∧
    -- a serial order, and what the later inserts have added to it
    (∃ earlier later worked stored,
      earlier ++ later = told ∧
      Serial (earlier ++ if kept then deeds.filter Deed.isDone else []) s worked ∧
      Serial later worked after.2.1 ∧
      (later.flatMap Deed.rows).mapM (NewEvent.stored s.now) = .ok stored ∧
      after.2.1 = { worked with committed := worked.committed.logging stored }) ∧
    -- of discarded work only the inserts remain
    (kept = false →
      ∃ stored,
        (told.flatMap Deed.rows).mapM (NewEvent.stored s.now) = .ok stored ∧
        after.2.1 = { s with committed := s.committed.logging stored }) ∧
    -- an insert is answered as it would be alone, or refused because the work has written
    (∀ rows answer, Deed.elsewhere rows answer ∈ deeds →
      answer = (s.insertElsewhere rows).1 ∨ answer = .error .locked) ∧
    -- and it logs all of its rows or changes nothing
    (∀ (rows : List NewEvent) (t : Session),
      (∃ f, t.insertElsewhere rows = (.error f, t)) ∨
      (∃ new, rows.mapM (NewEvent.stored t.now) = .ok new ∧
        (t.insertElsewhere rows).1 = .ok new.length ∧
        (t.insertElsewhere rows).2.committed = t.committed.logging new)) ∧
    -- work that only reads refuses no insert and sees the same contents all the time
    (p.Uses Statement.reads →
      (∀ rows answer, Deed.elsewhere rows answer ∈ deeds → answer = (s.insertElsewhere rows).1) ∧
      (∀ rows new, s.committed.events.isSome = true →
        rows.mapM (NewEvent.stored s.now) = .ok new →
        (s.insertElsewhere rows).1 = .ok new.length) ∧
      ∃ earlier later seen,
        earlier ++ later = told ∧
        Serial earlier s { s with committed := seen } ∧
        ∀ answer, Deed.own .readTables answer ∈ deeds → answer = .ok seen) := by
  intro own deeds told after kept
  have hnone : s.transaction = none := by
    simpa [Session.inTransaction] using hs
  have htold : ∀ deed ∈ told, deed.isTold = true := fun deed hmem => (List.mem_filter.mp hmem).2
  have hproceeds : Proceeds s told (deeds.filter Deed.isDone) own.1.2.1 :=
    (Proceeds.opened s).amid hp schedule c
  obtain ⟨earlier, later, worked, settled, hsplit, hcommit, hworked, hnow, hbefore, hlater⟩ :=
    hproceeds.commit hnone htold
  obtain ⟨committed, hrollBack, hdiscarded⟩ := hproceeds.rollBack hnone
  have hlaw : after =
      (own.1.1, (if kept then settled else { s with committed := committed }, own.1.2.2)) :=
    run_eq_of_ends hnone hmode dryRun c hcommit hrollBack
  obtain ⟨logged, hlogged, hend⟩ := hdiscarded.logging hnone htold
  have hlaterTold : ∀ deed ∈ later, deed.isTold = true := fun deed hmem =>
    htold deed (by rw [← hsplit]; exact List.mem_append_right earlier hmem)
  obtain ⟨stored, hstored, hsettled⟩ := hlater.logging hworked hlaterTold
  rw [hnow] at hstored
  have huses : p.Uses fun st => true || st.reads := hp.uses
  refine ⟨?_, ?_, ?_, ?_, ?_, ?_, ?_, ?_⟩
  · rw [hlaw]
  · rw [hlaw]
  · rw [hlaw]
    cases hkept : kept with
    | true => simp [hsettled, Session.inTransaction, hworked]
    | false => simp [Session.inTransaction, hnone]
  · rw [hlaw]
    cases hkept : kept with
    | true => exact ⟨earlier, later, worked, stored, hsplit, hbefore, hlater, hstored, hsettled⟩
    | false =>
        -- without the work every insert counts as an earlier one
        refine ⟨told, [], { s with committed := committed }, [], List.append_nil _, ?_, .nil, rfl, ?_⟩
        · simpa using hdiscarded
        · simp
  · intro hkept
    rw [hlaw, hkept]
    exact ⟨logged, hlogged, hend⟩
  · intro rows answer hmem
    rcases answers_amid true huses hnone schedule c rows answer hmem with halone | ⟨-, hlocked⟩
    · exact Or.inl halone
    · exact Or.inr hlocked
  · intro rows t
    rcases Session.insertElsewhere_cases rows t with ⟨f, hinsert⟩ | ⟨new, -, -, hnew, hinsert⟩
    · exact Or.inl ⟨f, hinsert⟩
    · refine Or.inr ⟨new, hnew, ?_, ?_⟩
      · rw [hinsert]
      · rw [hinsert]
        rfl
  · intro hreads
    refine ⟨?_, ?_, ?_⟩
    · intro rows answer hmem
      rcases answers_amid false hreads hnone schedule c rows answer hmem with halone | ⟨hwrites, -⟩
      · exact halone
      · cases hwrites
    · intro rows new hsome hnew
      obtain ⟨events, hevents⟩ := Option.isSome_iff_exists.mp hsome
      simp [Session.insertElsewhere, hevents, hnone, hnew]
    · have hharmless := harmless_amid hreads schedule (s.opened, c)
      obtain ⟨earlier, later, seen, hsplit, hseen, hreading⟩ := hproceeds.reading hnone
        fun deed hmem =>
          ⟨(hharmless deed (List.mem_filter.mp hmem).1).1, (List.mem_filter.mp hmem).2⟩
      refine ⟨earlier, later, seen, hsplit, hseen, ?_⟩
      intro answer hmem
      have hdone := (hharmless _ hmem).2 answer rfl
      exact hreading answer (List.mem_filter.mpr ⟨hmem, hdone⟩)

/-- A disk with an empty database. -/
def emptyDisk : Store.Disk :=
  ⟨[(["log.db"], .database .fresh true)]⟩

/-- Work that reads the contents twice. -/
def readTwice : Procedure Unit (Except Fault Nat) :=
  .statement .readTables fun _ => .statement .readTables fun _ => .done (.ok 0)

/-- Work that reads the contents and then removes every event. -/
def readAndRemove : Procedure Unit (Except Fault Nat) :=
  .statement .readTables fun _ => .statement (.deleteEvents fun _ => true) fun _ => .done (.ok 0)

/-- A row for an address. -/
def rowOf (source : String) : NewEvent :=
  ⟨.text source, .text "auth", .integer 1001, some (.text "2024-03-01 08:00:00")⟩

/-- Attempts before the first statement and before the second one. -/
def twoAttempts : List (List (List NewEvent)) :=
  [[[rowOf "203.0.113.5"]], [[rowOf "198.51.100.7"]]]

/-- The events that the attempts log. -/
def twoEvents : List Event :=
  [⟨"203.0.113.5", .auth, .integer 1001, "2024-03-01 08:00:00"⟩,
    ⟨"198.51.100.7", .auth, .integer 1001, "2024-03-01 08:00:00"⟩]

/-- Both inserts succeed while a scope reads, which sees the first row only and takes neither of them away.
Where the second statement is a removal it comes too late, fails and takes nothing away either. -/
theorem emptyDisk_serves_both :
    (emptyDisk.openSession "log.db" [] 0).toOption.map (·.1.session) = some emptySession ∧
    emptySession.inTransaction = false ∧
    readTwice.Flat ∧
    readTwice.Uses Statement.reads ∧
    readAndRemove.Flat ∧
    Mode.alwaysRollBack ≠ .autoCommit ∧
    Mode.guardedMutation ≠ .autoCommit ∧
    (∀ answer, Deed.own .readTables answer ∈ (readTwice.amid twoAttempts (emptySession.opened, ())).2 →
      answer = .ok ⟨some (twoEvents.take 1), some []⟩) ∧
    (run .alwaysRollBack true (fun state => (readTwice.amid twoAttempts state).1)
      (emptySession, ())).2.1.committed.events = some twoEvents ∧
    (readAndRemove.amid twoAttempts (emptySession.opened, ())).2.getLast? =
      some (.own (.deleteEvents fun _ => true) (.error .locked)) ∧
    (run .guardedMutation false (fun state => (readAndRemove.amid twoAttempts state).1)
      (emptySession, ())).2.1.committed.events = some twoEvents := by
  have hflat : readTwice.Flat := fun _ _ => trivial
  have hreads : readTwice.Uses Statement.reads := ⟨rfl, fun _ => ⟨rfl, fun _ => trivial⟩⟩
  have hflat' : readAndRemove.Flat := fun _ _ => trivial
  obtain ⟨-, -, -, -, hdiscarded, -, -, hreading⟩ :=
    run_amid_inserts readTwice hflat emptySession rfl .alwaysRollBack nofun true twoAttempts ()
  refine ⟨by decide +kernel, rfl, hflat, hreads, hflat', nofun, nofun, ?_, ?_, rfl, rfl⟩
  · obtain ⟨-, -, earlier, later, seen, -, -, hseen⟩ := hreading hreads
    have hfirst : Deed.own .readTables (.ok ⟨some (twoEvents.take 1), some []⟩) ∈
        (readTwice.amid twoAttempts (emptySession.opened, ())).2 :=
      List.mem_cons_of_mem _ List.mem_cons_self
    intro answer hmem
    rw [hseen answer hmem, hseen _ hfirst]
  · obtain ⟨stored, hstored, hend⟩ := hdiscarded rfl
    have htwo : ([rowOf "203.0.113.5", rowOf "198.51.100.7"].mapM (NewEvent.stored 0)) =
        .ok twoEvents := rfl
    cases htwo.symm.trans hstored
    rw [hend]
    rfl

end Scope
end AccessAudit
