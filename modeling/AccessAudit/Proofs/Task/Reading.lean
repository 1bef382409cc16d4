import AccessAudit.Proofs.Scope.Law
import AccessAudit.Task.Runner

/-!
# Reports only read

A report leaves the session as it is, but for the contents that a transaction
fixes at its first access.  What it answers and how it changes the cache depend
on what it sees of the session (the contents, the reference set, the local
networks and the clock), on the cache and on whether the reference set is in
use; the notices left by other tasks, the limits of the session and the state
of its transaction make no difference.
-/

namespace AccessAudit

open Store (Session Event)

/-- The session as a report sees it. -/
def Store.Session.sight (s : Session) : Session :=
  { committed := s.tables
    reference := s.reference
    localNetworks := s.localNetworks
    now := s.now }

@[simp] theorem Store.Session.tables_sight
    (s : Session) :
    s.sight.tables = s.tables := by
  rfl

@[simp] theorem Store.Session.sight_fixView
    (s : Session) :
    s.fixView.sight = s.sight := by
  simp only [sight, tables_fixView]
  rfl

@[simp] theorem Store.Session.sight_sight
    (s : Session) :
    s.sight.sight = s.sight := by
  rfl

/-- The context without its notices. -/
def Context.quiet {σ : Type} (c : Context σ) : Context σ :=
  { c with notices := [] }

/-- A context with the notices of another one. -/
def Context.noted {σ : Type} (c before : Context σ) : Context σ :=
  { c with notices := before.notices }

/-- A context with a source that knows nothing. -/
def Context.idle : Context Unit :=
  { cache := { ask := fun _ _ => (.nothing, ()), source := () } }

/-- Computations that only read the session, and whose answer and cache depend on nothing but what
they see. -/
def Reads {σ α : Type} (r : Session × Context σ → α × (Session × Context σ)) : Prop :=
  ∀ s c, ∃ s' c',
    r (s, c) = ((r (s.sight, c.quiet)).1, (s', c')) ∧
    (s' = s ∨ s' = s.fixView) ∧
    c'.quiet = (r (s.sight, c.quiet)).2.2.quiet

namespace Reads

variable {σ α β : Type}

section Consequences

variable {r : Session × Context σ → α × (Session × Context σ)}

theorem session
    (hr : Reads r)
    (s : Session)
    (c : Context σ) :
    (r (s, c)).2.1 = s ∨ (r (s, c)).2.1 = s.fixView := by
  obtain ⟨s', c', h, hs, -⟩ := hr s c
  rw [h]
  exact hs

theorem sight_session
    (hr : Reads r)
    (s : Session)
    (c : Context σ) :
    (r (s, c)).2.1.sight = s.sight := by
  rcases hr.session s c with h | h
  · rw [h]
  · rw [h, Session.sight_fixView]

theorem answer
    (hr : Reads r)
    (s : Session)
    (c : Context σ) :
    (r (s, c)).1 = (r (s.sight, c.quiet)).1 := by
  obtain ⟨s', c', h, -, -⟩ := hr s c
  rw [h]

theorem context
    (hr : Reads r)
    (s : Session)
    (c : Context σ) :
    (r (s, c)).2.2.quiet = (r (s.sight, c.quiet)).2.2.quiet := by
  obtain ⟨s', c', h, -, hc⟩ := hr s c
  rw [h]
  exact hc

/-- Reading stays within a transaction. -/
theorem contained
    (hr : Reads r) :
    Scope.Contained r := by
  intro start s c h
  rcases hr.session s c with h' | h'
  · rw [h']
    exact h
  · rw [h']
    exact h.fixView

end Consequences

/-- An answer that is fixed beforehand. -/
theorem pure
    (a : α) :
    Reads (σ := σ) fun state => (a, state) := by
  intro s c
  exact ⟨s, c, rfl, Or.inl rfl, rfl⟩

/-- A computation followed by another one that is chosen by its answer. -/
theorem bind
    {r : Session × Context σ → α × (Session × Context σ)}
    {k : α → Session × Context σ → β × (Session × Context σ)}
    (hr : Reads r)
    (hk : ∀ a, Reads (k a)) :
    Reads fun state => k (r state).1 (r state).2 := by
  intro s c
  obtain ⟨s', c', hrun, hs, hc⟩ := hr s c
  have hsight' : s'.sight = s.sight := by
    have h := hr.sight_session s c
    rwa [hrun] at h
  have hsight : (r (s.sight, c.quiet)).2.1.sight = s.sight :=
    hr.sight_session s.sight c.quiet
  cases hseen : r (s.sight, c.quiet) with
  | mk a seen =>
      rw [hseen] at hrun hc hsight
      -- after either run of the first computation the second one sees the same
      have hfirst := hk a s' c'
      rw [hsight', hc, ← hsight] at hfirst
      obtain ⟨s'', c'', hrun', hs', hc'⟩ := hfirst
      refine ⟨s'', c'', ?_, ?_, ?_⟩
      · simp only [hrun, hseen]
        rw [hrun', (hk a).answer seen.1 seen.2]
      · rcases hs with rfl | rfl
        · exact hs'
        · rcases hs' with rfl | rfl
          · exact Or.inr rfl
          · exact Or.inr (Session.fixView_fixView s)
      · simp only [hseen]
        rw [hc', (hk a).context seen.1 seen.2]

/-- The same computation with a function of its answer as the answer. -/
theorem map
    {r : Session × Context σ → α × (Session × Context σ)}
    (hr : Reads r)
    (f : α → β) :
    Reads fun state => (f (r state).1, (r state).2) :=
  hr.bind fun a => Reads.pure (f a)

end Reads

namespace Task

variable {σ : Type}

theorem reads_onEvents
    {report : Session → List Event → Except Fault (List String)}
    (hreport : ∀ s events, report s events = report s.sight events) :
    Reads (onEvents (σ := σ) report) := by
  intro s c
  simp only [onEvents, Session.read, Session.tables_sight]
  cases s.tables.getEvents with
  | error e => exact ⟨_, _, rfl, Or.inr rfl, rfl⟩
  | ok events =>
      dsimp only
      rw [hreport s.fixView, hreport s.sight.fixView]
      simp only [Session.sight_fixView, Session.sight_sight]
      exact ⟨_, _, rfl, Or.inr rfl, rfl⟩

theorem reads_topSources
    (config : Configuration) :
    Reads (topSources (σ := σ) config) := by
  intro s c
  refine ⟨s.fixView, (topSources config (s.sight, c.quiet)).2.2.noted c, ?_, Or.inr rfl, rfl⟩
  have hnow : s.sight.fixView.now = s.fixView.now := rfl
  simp only [topSources, Session.read, Session.tables_sight, hnow]
  cases s.tables.getEvents with
  | error e => rfl
  | ok events =>
      dsimp only
      cases onlyTexts "src_ipaddr"
          ((volumeRows Store.textLe (·.source) Store.Uid.le (·.uid) s.fixView.now config.topN events).map
            (·.key)) with
      | error e => rfl
      | ok _ =>
          dsimp only
          split
          · next h => exact if_pos h
          · next h => exact if_neg h

theorem reads_topUids
    (config : Configuration) :
    Reads (topUids (σ := σ) config) :=
  reads_onEvents fun _ _ => rfl

theorem reads_sourcesBySuccess
    (config : Configuration) :
    Reads (sourcesBySuccess (σ := σ) config) :=
  reads_onEvents fun _ _ => rfl

theorem reads_uidsBySuccess
    (config : Configuration) :
    Reads (uidsBySuccess (σ := σ) config) :=
  reads_onEvents fun _ _ => rfl

theorem reads_openForeignSessions
    (config : Configuration) :
    Reads (openForeignSessions (σ := σ) config) := by
  intro s c
  refine
    ⟨s.fixView, (openForeignSessions config (s.sight, c.quiet)).2.2.noted c, ?_, Or.inr rfl, rfl⟩
  have hnetworks : s.sight.fixView.localNetworks = s.fixView.localNetworks := rfl
  simp only [openForeignSessions, Session.read, Session.tables_sight, hnetworks]
  cases s.tables.getEvents with
  | error e => rfl
  | ok events =>
      dsimp only
      cases openUids s.fixView.localNetworks config.topN events with
      | error e => rfl
      | ok uids =>
          dsimp only
          split
          · next h => exact if_pos h
          · next h => exact if_neg h

theorem reads_foreignByAccount
    (config : Configuration) :
    Reads (foreignByAccount (σ := σ) config) := by
  rintro s ⟨cache, loaded, notices⟩
  let after := (foreignByAccount config (s.sight, ⟨cache, loaded, []⟩)).2.2
  cases loaded with
  | false => exact ⟨s, ⟨cache, false, notices⟩, rfl, Or.inl rfl, rfl⟩
  | true =>
      refine ⟨s.fixView, after.noted ⟨cache, true, notices⟩, ?_, Or.inr rfl, rfl⟩
      have hnetworks : s.sight.fixView.localNetworks = s.fixView.localNetworks := rfl
      have hreference : s.sight.fixView.getReference = s.fixView.getReference := rfl
      simp only [after, foreignByAccount, Context.quiet, Session.read, Session.tables_sight,
        hnetworks, hreference, Bool.not_true, Bool.false_eq_true, if_false]
      cases s.tables.getEvents with
      | error e => rfl
      | ok events =>
          cases s.fixView.getReference with
          | error e => rfl
          | ok reference =>
              dsimp only
              cases onlyAddresses config.topN ((accountOpenings reference events).map (·.2.source)) with
              | error e => rfl
              | ok _ =>
                  dsimp only
                  split
                  · next h => exact if_pos h
                  · next h => exact if_neg h

theorem reads_firewallBlocks :
    Reads (firewallBlocks (σ := σ)) := by
  intro s c
  refine ⟨s.fixView, (firewallBlocks (s.sight, c.quiet)).2.2.noted c, ?_, Or.inr rfl, rfl⟩
  simp only [firewallBlocks, Session.read, Session.tables_sight]
  cases s.tables.getEntities with
  | error e => rfl
  | ok blocks =>
      dsimp only
      split
      · rfl
      · cases onlyTexts "ip_entity" ((blocks.filterMap id).mergeSort Store.textLe) with
        | error e => rfl
        | ok _ =>
            dsimp only
            split
            · rfl
            · rfl

/-- The summary of countries changes nothing, and its answer depends on the cache only. -/
theorem countrySummary_eq
    (s s' : Session)
    (c c' : Context σ)
    (hcache : c'.cache = c.cache) :
    countrySummary (s', c') = ((countrySummary (s, c)).1, (s', c')) := by
  unfold countrySummary
  dsimp only
  rw [hcache]
  split
  · rfl
  · rfl

theorem reads_countrySummary :
    Reads (countrySummary (σ := σ)) := by
  intro s c
  have hrun := countrySummary_eq s.sight s c.quiet c rfl
  have hseen := countrySummary_eq s.sight s.sight c.quiet c.quiet rfl
  refine ⟨s, c, hrun, Or.inl rfl, ?_⟩
  rw [hseen]
  rfl

/-- Every part of the top counts only reads. -/
theorem reads_report
    (config : Configuration)
    (part : Part) :
    Reads (part.report (σ := σ) config) := by
  cases part with
  | topSources => exact reads_topSources config
  | topUids => exact reads_topUids config
  | sourcesBySuccess => exact reads_sourcesBySuccess config
  | uidsBySuccess => exact reads_uidsBySuccess config
  | openForeignSessions => exact reads_openForeignSessions config
  | foreignByAccount => exact reads_foreignByAccount config
  | firewallBlocks => exact reads_firewallBlocks
  | countrySummary => exact reads_countrySummary

/-- A report stays one that only reads when it is turned into a section. -/
theorem reads_inSection
    {report : Reporting σ}
    (hreport : Reads report)
    (heading subject : String) :
    Reads (inSection heading subject report) := by
  intro s c
  obtain ⟨s', c', hrun, hs, hc⟩ := hreport s c
  have hleft : inSection heading subject report (s, c) =
      match report (s.sight, c.quiet) with
      | (.ok blocks, _) => (sectionOf heading subject (.ok blocks), (s', c'))
      | (.error f, _) =>
          (sectionOf heading subject (.error f), (s', c'.note (sectionNotice subject f))) := by
    unfold inSection
    rw [hrun]
    rcases report (s.sight, c.quiet) with ⟨_ | _, _⟩ <;> rfl
  rw [hleft]
  unfold inSection
  cases hseen : report (s.sight, c.quiet) with
  | mk outcome seen =>
      rw [hseen] at hc
      cases outcome with
      | error f => exact ⟨s', _, rfl, hs, hc⟩
      | ok blocks => exact ⟨s', c', rfl, hs, hc⟩

theorem reads_sectionsOf
    (config : Configuration)
    (parts : List Part) :
    Reads (sectionsOf (σ := σ) config parts) := by
  induction parts with
  | nil => exact Reads.pure []
  | cons part rest ih =>
      exact (reads_inSection (reads_report config part) part.heading part.subject).bind
        fun blocks => ih.map (blocks ++ ·)

/-- Counting rows as a computation beside the context. -/
def counting
    (count : Session → Except Fault Nat × Session) :
    Session × Context σ → Except Fault Nat × (Session × Context σ) :=
  fun (s, c) => ((count s).1, ((count s).2, c))

theorem reads_counting_events :
    Reads (counting (σ := σ) countEvents) := by
  intro s c
  exact ⟨s.fixView, c, rfl, Or.inr rfl, rfl⟩

theorem reads_counting_blocks :
    Reads (counting (σ := σ) countBlocks) := by
  intro s c
  exact ⟨s.fixView, c, rfl, Or.inr rfl, rfl⟩

/-- The daily counts once the events are counted. -/
def dailyAfter : Except Fault Nat → Reporting σ
  | .error f => fun state => (.error f, state)
  | .ok 0 => fun state => (.ok [], state)
  | .ok (_ + 1) => fun state =>
      let daily :=
        inSection "## Daily event counts" "daily event counts"
          (onEvents fun s events => dailyTable s.now events) state
      (.ok daily.1, daily.2)

theorem dailyEventCount_eq :
    dailyEventCount (σ := σ) =
      fun state => dailyAfter (counting countEvents state).1 (counting countEvents state).2 := by
  funext ⟨s, c⟩
  unfold dailyEventCount counting
  dsimp only
  rcases countEvents s with ⟨f | n, s'⟩
  · rfl
  · cases n with
    | zero => rfl
    | succ n => rfl

theorem reads_dailyAfter
    (counted : Except Fault Nat) :
    Reads (dailyAfter (σ := σ) counted) := by
  cases counted with
  | error f => exact Reads.pure _
  | ok n =>
      cases n with
      | zero => exact Reads.pure _
      | succ n =>
          have htable : Reads (σ := σ) (onEvents fun s events => dailyTable s.now events) :=
            reads_onEvents fun _ _ => rfl
          exact (reads_inSection htable _ _).map Except.ok

theorem reads_dailyEventCount :
    Reads (dailyEventCount (σ := σ)) := by
  rw [dailyEventCount_eq]
  exact reads_counting_events.bind reads_dailyAfter

/-- The top counts once the blocked entities of an empty log are counted. -/
def topAfterBlocks (config : Configuration) : Except Fault Nat → Reporting σ
  | .error f => fun state => (.error f, state)
  | .ok 0 => fun state => (.ok [], state)
  | .ok (_ + 1) => fun state =>
      let sections := sectionsOf config (Part.all.filter fun p => !p.readsLog) state
      (.ok sections.1, sections.2)

/-- The top counts once the events are counted. -/
def topAfter (config : Configuration) : Except Fault Nat → Reporting σ
  | .error f => fun state => (.error f, state)
  | .ok 0 => fun state =>
      topAfterBlocks config (counting countBlocks state).1 (counting countBlocks state).2
  | .ok (_ + 1) => fun state =>
      let sections := sectionsOf config Part.all state
      (.ok sections.1, sections.2)

theorem topCounts_eq
    (config : Configuration) :
    topCounts (σ := σ) config =
      fun state => topAfter config (counting countEvents state).1 (counting countEvents state).2 := by
  funext ⟨s, c⟩
  unfold topCounts counting
  dsimp only
  rcases countEvents s with ⟨f | n, s'⟩
  · rfl
  · cases n with
    | zero =>
        simp only [topAfter, counting]
        rcases countBlocks s' with ⟨f | n, s''⟩
        · rfl
        · cases n with
          | zero => rfl
          | succ n => rfl
    | succ n => rfl

theorem reads_topAfterBlocks
    (config : Configuration)
    (counted : Except Fault Nat) :
    Reads (topAfterBlocks (σ := σ) config counted) := by
  cases counted with
  | error f => exact Reads.pure _
  | ok n =>
      cases n with
      | zero => exact Reads.pure _
      | succ n => exact (reads_sectionsOf config _).map Except.ok

theorem reads_topAfter
    (config : Configuration)
    (counted : Except Fault Nat) :
    Reads (topAfter (σ := σ) config counted) := by
  cases counted with
  | error f => exact Reads.pure _
  | ok n =>
      cases n with
      | zero => exact reads_counting_blocks.bind (reads_topAfterBlocks config)
      | succ n => exact (reads_sectionsOf config _).map Except.ok

theorem reads_topCounts
    (config : Configuration) :
    Reads (topCounts (σ := σ) config) := by
  rw [topCounts_eq]
  exact reads_counting_events.bind (reads_topAfter config)

end Task
end AccessAudit
