import AccessAudit.Directory.Reference
import AccessAudit.Proofs.Basic
import AccessAudit.Proofs.Task.Filling
import AccessAudit.Proofs.Task.OpenTransaction
import AccessAudit.Proofs.Task.Retention

/-!
# The reference set over a history

Whether the reference set may be used is told by a flag of the context, while the
set itself is a table of the session.  Loading writes both, in several steps that
may fail one by one, and a transaction may take the table back to what it was when
the transaction began.

A history is a list of loads, runs of tasks and transaction statements.  As long as
the flag is up, the table holds the ids of the last load, and so does the table that
an open transaction would restore.
-/

namespace AccessAudit

open Store (Session)

namespace Store.Session

/-! ### Ids without repetition -/

theorem pairwise_distinctIds
    (ids : List Int) :
    (distinctIds ids).Pairwise (· < ·) :=
  (pairwise_foldr_distinct (pairwise_mergeSort ids)).1

@[simp] theorem mem_distinctIds
    {ids : List Int}
    {id : Int} :
    id ∈ distinctIds ids ↔ id ∈ ids := by
  rw [distinctIds, (pairwise_foldr_distinct (pairwise_mergeSort ids)).2 id, List.mem_mergeSort]

/-! ### A set that no transaction can take away -/

/-- The reference set holds these ids, now and after any end of an open transaction. -/
structure Keeps (ids : List Int) (s : Session) : Prop where
  reference : s.reference = some (distinctIds ids)
  before : ∀ t, s.transaction = some t → t.referenceBefore = some (distinctIds ids)

/-- The session after a statement that begins or ends a transaction; one that fails changes nothing. -/
def attempted (s : Session) : Except Store.Fault Session → Session
  | .ok after => after
  | .error _ => s

section Keeps

variable {ids : List Int} {s : Session}

theorem Keeps.begin
    (h : Keeps ids s) :
    Keeps ids (s.attempted s.begin) := by
  cases hs : s.transaction with
  | some t =>
      simp only [Session.begin, hs, attempted]
      exact h
  | none =>
      simp only [Session.begin, hs, attempted]
      refine ⟨h.reference, ?_⟩
      rintro t ⟨rfl⟩
      exact h.reference

theorem Keeps.commit
    (h : Keeps ids s) :
    Keeps ids (s.attempted s.commit) := by
  cases hs : s.transaction with
  | none =>
      simp only [Session.commit, hs, attempted]
      exact h
  | some t =>
      simp only [Session.commit, hs, attempted]
      refine ⟨h.reference, ?_⟩
      intro u hu
      cases hu

theorem Keeps.rollBack
    (h : Keeps ids s) :
    Keeps ids (s.attempted s.rollBack) := by
  cases hs : s.transaction with
  | none =>
      simp only [Session.rollBack, hs, attempted]
      exact h
  | some t =>
      simp only [Session.rollBack, hs, attempted]
      refine ⟨h.before t hs, ?_⟩
      intro u hu
      cases hu

end Keeps

end Store.Session

namespace Task

variable {σ : Type}

/-- Tasks leave the flag as it is. -/
theorem referenceLoaded_run
    (config : Configuration)
    (task : Task)
    (s : Session)
    (c : Context σ) :
    (task.run config (s, c)).2.2.referenceLoaded = c.referenceLoaded := by
  cases h : task.verdict config (s, c) with
  | skipped => rw [run_of_skipped h]
  | failed f =>
      rw [run_of_failed h]
      rfl
  | completed sections =>
      obtain ⟨opened, -, hrun⟩ := run_of_completed h
      cases task with
      | purging =>
          rw [hrun]
          rfl
      | compacting =>
          rw [hrun]
          rfl
      | dailyCounting => exact (fills_dailyCounting config s c).referenceLoaded
      | ranking => exact (fills_ranking config s c).referenceLoaded

theorem referenceLoaded_runAll
    (config : Configuration)
    (tasks : List Task)
    (state : Session × Context σ) :
    (runAll config tasks state).2.2.referenceLoaded = state.2.referenceLoaded := by
  induction tasks generalizing state with
  | nil => rfl
  | cons task rest ih => exact (ih _).trans (referenceLoaded_run config task state.1 state.2)

/-- What tasks remove from the log is no matter of the reference set. -/
theorem keeps_runAll
    {ids : List Int}
    (config : Configuration)
    (tasks : List Task)
    {s : Session}
    (h : s.Keeps ids)
    (c : Context σ) :
    (runAll config tasks (s, c)).2.1.Keeps ids := by
  rcases retains_runAll config tasks (s, c) with ⟨-, hafter⟩ | ⟨-, hafter⟩
  · rw [hafter]
    exact ⟨h.reference, h.before⟩
  · rw [hafter]
    exact h

end Task

namespace Directory

/-! ### Loading -/

/-- Storing ids succeeds unless the session may not write or has a transaction open. -/
theorem answer_loadReference
    (ids : List Int)
    (s : Session) :
    (loadReference (.ok ids) s).1 =
      if s.limits.queryOnly then .error ((Fault.ofStore .readOnly).within .prepareReference)
      else if s.inTransaction then .error (Fault.ofStore .alreadyInTransaction)
      else .ok (Session.distinctIds ids).length := by
  obtain ⟨committed, reference, transaction, ⟨queryOnly, readOnlyFile⟩, networks, now⟩ := s
  cases queryOnly with
  | true => rfl
  | false =>
      cases transaction with
      | some t => rfl
      | none => rfl

/-- Ids that were stored can be relied on. -/
theorem keeps_loadReference
    {ids : List Int}
    {s : Session}
    {n : Nat}
    (h : (loadReference (.ok ids) s).1 = .ok n) :
    (loadReference (.ok ids) s).2.Keeps ids := by
  obtain ⟨committed, reference, transaction, ⟨queryOnly, readOnlyFile⟩, networks, now⟩ := s
  cases queryOnly with
  | true => cases h
  | false =>
      cases transaction with
      | some t => cases h
      | none => exact ⟨rfl, nofun⟩

section Loads

variable {σ : Type} (config : Configuration) (s : Session) (c : Context σ)

/-- A load with reports and a directory. -/
theorem loadForRun_of_answer
    (hreport : config.report = true)
    (accounts : Except Fault (List Int)) :
    (loadForRun config (some accounts) (s, c)).1 =
      (match (loadReference accounts s).1 with
        | .ok _ => []
        | .error f => ["ERROR:  Failed to load reference user ids from directory: " ++ f.text]) ∧
    (loadForRun config (some accounts) (s, c)).2.1 = (loadReference accounts s).2 ∧
    ((loadForRun config (some accounts) (s, c)).2.2.referenceLoaded = true ↔
      ∃ n, (loadReference accounts s).1 = .ok n) := by
  cases hload : loadReference accounts s with
  | mk answer after =>
      cases answer with
      | ok n => simp [loadForRun, hreport, hload]
      | error f =>
          simp only [loadForRun, hreport, hload, Context.note]
          exact ⟨rfl, rfl, by simp⟩

/-- A load without reports or without a directory says nothing and lowers the flag. -/
theorem loadForRun_of_unused
    {accounts : Option (Except Fault (List Int))}
    (h : config.report = false ∨ accounts = none) :
    loadForRun config accounts (s, c) = ([], (s, { c with referenceLoaded := false })) := by
  rcases h with hreport | rfl
  · simp [loadForRun, hreport]
  · simp [loadForRun]

/-- The flag after a load. -/
theorem referenceLoaded_loadForRun
    (accounts : Option (Except Fault (List Int))) :
    (loadForRun config accounts (s, c)).2.2.referenceLoaded = true ↔
      config.report = true ∧
        ∃ ids n, accounts = some (.ok ids) ∧ (loadReference (.ok ids) s).1 = .ok n := by
  cases hreport : config.report with
  | false => simp [loadForRun_of_unused config s c (Or.inl hreport)]
  | true =>
      cases accounts with
      | none => simp [loadForRun_of_unused config s c (Or.inr rfl)]
      | some accounts =>
          rw [(loadForRun_of_answer config s c hreport accounts).2.2]
          cases accounts with
          | error f => simp [loadReference]
          | ok ids => simp

end Loads

/-! ### Histories -/

/-- What may happen to a session and the context of its runs. -/
inductive Action
  | load (config : Configuration) (accounts : Option (Except Fault (List Int)))
  | run (config : Configuration) (tasks : List Task)
  | begin
  | commit
  | rollBack

namespace Action

/-- Whether an action is a load. -/
def isLoad : Action → Bool
  | .load _ _ => true
  | _ => false

section Histories

variable {σ : Type}

/-- The state after an action. -/
def perform : Action → Session × Context σ → Session × Context σ
  | .load config accounts, state => (loadForRun config accounts state).2
  | .run config tasks, state => (Task.runAll config tasks state).2
  | .begin, (s, c) => (s.attempted s.begin, c)
  | .commit, (s, c) => (s.attempted s.commit, c)
  | .rollBack, (s, c) => (s.attempted s.rollBack, c)

/-- The state after actions, one after the other. -/
def performAll (actions : List Action) (state : Session × Context σ) : Session × Context σ :=
  actions.foldl (fun state action => action.perform state) state

/-- Only a load changes the flag. -/
theorem referenceLoaded_perform
    {action : Action}
    (h : action.isLoad = false)
    (state : Session × Context σ) :
    (action.perform state).2.referenceLoaded = state.2.referenceLoaded := by
  cases action with
  | load config accounts => cases h
  | run config tasks => exact Task.referenceLoaded_runAll config tasks state
  | begin => rfl
  | commit => rfl
  | rollBack => rfl

theorem referenceLoaded_performAll
    {actions : List Action}
    (h : ∀ action ∈ actions, action.isLoad = false)
    (state : Session × Context σ) :
    (performAll actions state).2.referenceLoaded = state.2.referenceLoaded := by
  induction actions generalizing state with
  | nil => rfl
  | cons action rest ih =>
      have hrest : ∀ other ∈ rest, other.isLoad = false := fun other hmem =>
        h other (List.mem_cons_of_mem action hmem)
      exact (ih hrest _).trans (referenceLoaded_perform (h action List.mem_cons_self) state)

/-- Nothing but a load takes the ids away. -/
theorem keeps_perform
    {ids : List Int}
    {action : Action}
    (haction : action.isLoad = false)
    {state : Session × Context σ}
    (h : state.1.Keeps ids) :
    (action.perform state).1.Keeps ids := by
  cases action with
  | load config accounts => cases haction
  | run config tasks => exact Task.keeps_runAll config tasks h state.2
  | begin => exact h.begin
  | commit => exact h.commit
  | rollBack => exact h.rollBack

theorem keeps_performAll
    {ids : List Int}
    {actions : List Action}
    (hactions : ∀ action ∈ actions, action.isLoad = false)
    {state : Session × Context σ}
    (h : state.1.Keeps ids) :
    (performAll actions state).1.Keeps ids := by
  induction actions generalizing state with
  | nil => exact h
  | cons action rest ih =>
      have hrest : ∀ other ∈ rest, other.isLoad = false := fun other hmem =>
        hactions other (List.mem_cons_of_mem action hmem)
      exact ih hrest (keeps_perform (hactions action List.mem_cons_self) h)

theorem performAll_append
    (before after : List Action)
    (state : Session × Context σ) :
    performAll (before ++ after) state = performAll after (performAll before state) :=
  List.foldl_append

end Histories

end Action

open AccessAudit.Directory.Action (performAll)

/-- Over any history that starts with the flag down, the flag is up just if the last load was one with
reports, a directory, an answer of it and a storing that succeeded, and then the reference set consists of
the ids of that answer.  A load adds one line to the report if the directory or the storing fails, an error
that tells the fault, and none otherwise.  With the flag down the report on accounts is one line. -/
theorem flag_tells_reference_set
    {σ : Type}
    (actions : List Action)
    (s : Session)
    (c : Context σ)
    (hc : c.referenceLoaded = false) :
    let after := performAll actions (s, c)
    -- the flag, without a load and with a last one
    ((∀ action ∈ actions, action.isLoad = false) → after.2.referenceLoaded = false) ∧
    (∀ before config accounts later,
      actions = before ++ .load config accounts :: later →
      (∀ action ∈ later, action.isLoad = false) →
      let met := (performAll before (s, c)).1
      (after.2.referenceLoaded = true ↔
        config.report = true ∧
          ∃ ids n, accounts = some (.ok ids) ∧ (loadReference (.ok ids) met).1 = .ok n) ∧
      -- the reference set while the flag is up
      (after.2.referenceLoaded = true →
        ∃ ids kept,
          accounts = some (.ok ids) ∧
          after.1.getReference = .ok kept ∧
          kept.Pairwise (· < ·) ∧
          ∀ id, id ∈ kept ↔ id ∈ ids)) ∧
    -- what another load adds to the report, and when it can store ids
    (∀ config accounts,
      (loadForRun config accounts after).1 =
        match config.report, accounts with
        | true, some accounts =>
            match (loadReference accounts after.1).1 with
            | .ok _ => []
            | .error f => ["ERROR:  Failed to load reference user ids from directory: " ++ f.text]
        | _, _ => []) ∧
    (∀ f, (loadReference (.error f) after.1).1 = .error f) ∧
    (∀ ids,
      (∃ n, (loadReference (.ok ids) after.1).1 = .ok n) ↔
        after.1.inTransaction = false ∧ after.1.limits.queryOnly = false) ∧
    -- the report on accounts while the flag is down, wherever a run has come to
    (after.2.referenceLoaded = false →
      ∀ (config : Configuration) (t : Session) (cache : Cache σ) (notices : List Notice),
        let reached : Session × Context σ := (t, { after.2 with cache := cache, notices := notices })
        let part := Task.Part.foreignByAccount
        inSection part.heading part.subject (part.report config) reached =
          ([part.heading, Task.referenceUnavailable], reached)) := by
  intro after
  refine ⟨?_, ?_, ?_, fun f => rfl, ?_, ?_⟩
  · intro hnone
    exact (Action.referenceLoaded_performAll hnone (s, c)).trans hc
  · intro before config accounts later hactions hlater met
    let loaded := (loadForRun config accounts (performAll before (s, c))).2
    have hafter : after = performAll later loaded := by
      simp only [after, hactions, Action.performAll_append]
      rfl
    have hflag : after.2.referenceLoaded = true ↔
        config.report = true ∧
          ∃ ids n, accounts = some (.ok ids) ∧ (loadReference (.ok ids) met).1 = .ok n := by
      rw [hafter, Action.referenceLoaded_performAll hlater]
      exact referenceLoaded_loadForRun config met _ accounts
    refine ⟨hflag, ?_⟩
    intro hup
    obtain ⟨hreport, ids, n, rfl, hstored⟩ := hflag.mp hup
    have hloaded : loaded.1.Keeps ids := by
      have hsession := (loadForRun_of_answer config met (performAll before (s, c)).2 hreport
        (.ok ids)).2.1
      rw [show loaded.1 = (loadReference (.ok ids) met).2 from hsession]
      exact keeps_loadReference hstored
    have hkeeps : after.1.Keeps ids := by
      rw [hafter]
      exact Action.keeps_performAll hlater hloaded
    refine ⟨ids, Session.distinctIds ids, rfl, ?_, Session.pairwise_distinctIds ids, ?_⟩
    · simp [Session.getReference, hkeeps.reference]
    · intro id
      exact Session.mem_distinctIds
  · intro config accounts
    cases hreport : config.report with
    | false => rw [loadForRun_of_unused config after.1 after.2 (Or.inl hreport)]
    | true =>
        cases accounts with
        | none => rw [loadForRun_of_unused config after.1 after.2 (Or.inr rfl)]
        | some accounts => exact (loadForRun_of_answer config after.1 after.2 hreport accounts).1
  · intro ids
    rw [answer_loadReference]
    cases hquery : after.1.limits.queryOnly with
    | true => simp
    | false =>
        cases hopen : after.1.inTransaction with
        | true => simp
        | false => simp
  · intro hdown config t cache notices reached part
    have hreport : part.report config reached = (.ok [Task.referenceUnavailable], reached) := by
      simp only [part, Task.Part.report, Task.foreignByAccount, reached, hdown]
      rfl
    simp only [inSection, hreport, sectionOf]

/-- A load that comes at the wrong time, within a transaction, before one that succeeds. -/
def wrongThenRight : List Action :=
  [.load {} (some (.ok [1004])), .begin, .load {} (some (.ok [1005])), .rollBack]

/-- The second load has failed, and the rolled back transaction has brought back the set of the first one;
the third load replaces it, and another transaction does not take it away.  A fourth load within that
transaction would fail. -/
theorem wrongThenRight_keeps_ids :
    Context.idle.referenceLoaded = false ∧
    let met := performAll wrongThenRight (Scope.emptySession, Context.idle)
    let after := performAll
      (wrongThenRight ++ .load {} (some (.ok [1003, 1001, 1003])) :: [.begin, .run {} [.ranking]])
      (Scope.emptySession, Context.idle)
    met.2.referenceLoaded = false ∧
    met.1.reference = some [1004] ∧
    after.2.referenceLoaded = true ∧
    (∃ kept, after.1.getReference = .ok kept ∧ ∀ id, id ∈ kept ↔ id ∈ [1003, 1001, 1003]) ∧
    (loadForRun {} (some (.ok [1006])) after).1 =
      ["ERROR:  Failed to load reference user ids from directory: " ++
        (Fault.ofStore .alreadyInTransaction).text] := by
  refine ⟨rfl, ?_⟩
  intro met after
  obtain ⟨-, hlast, hlines, -⟩ :=
    flag_tells_reference_set
      (wrongThenRight ++ .load {} (some (.ok [1003, 1001, 1003])) :: [.begin, .run {} [.ranking]])
      Scope.emptySession Context.idle rfl
  obtain ⟨hflag, htable⟩ := hlast wrongThenRight {} _ _ rfl (by decide)
  have hstored : ∃ n, (loadReference (.ok [1003, 1001, 1003]) met.1).1 = .ok n :=
    ⟨_, answer_loadReference [1003, 1001, 1003] met.1⟩
  have hup : after.2.referenceLoaded = true := by
    obtain ⟨n, hn⟩ := hstored
    exact hflag.mpr ⟨rfl, _, n, rfl, hn⟩
  refine ⟨by decide +kernel, by decide +kernel, hup, ?_, ?_⟩
  · obtain ⟨ids, kept, ⟨rfl⟩, hkept, -, hmem⟩ := htable hup
    exact ⟨kept, hkept, hmem⟩
  · rw [hlines {} (some (.ok [1006]))]
    decide +kernel

end Directory
end AccessAudit
