import AccessAudit.Proofs.Task.Sketch

/-!
# Parts of the top counts stand for themselves

The sections of the top counts are put together from what each part comes to on
the same session, with the cache as the parts before it left it.  A part that
fails leaves one line in its own section.  It has asked for nothing, so that the
parts after it come to what they would come to without it.

Which parts there are is decided by counting rows before the first of them.
-/

namespace AccessAudit

open Store (Session)

namespace Task

/-- The section of a part with an outcome: its heading, and then the blocks or one line about the
failure. -/
def Part.lines (part : Part) : Except Fault (List String) → List String
  | .ok blocks => part.heading :: blocks
  | .error f =>
      [part.heading,
        "ERROR:  Failed to produce " ++ part.subject ++ ": " ++ String.intercalate ": " f.links]

variable {σ : Type}

/-- What parts come to on one session, each in the context that the part before it left. -/
def outcomes (config : Configuration) :
    List Part → Session → Context σ → List (Part × Except Fault (List String))
  | [], _, _ => []
  | part :: rest, s, c =>
      (part, (part.report config (s, c)).1) ::
        outcomes config rest s (part.report config (s, c)).2.2

/-- The context after parts on one session. -/
def contextAfter (config : Configuration) : List Part → Session → Context σ → Context σ
  | [], _, c => c
  | part :: rest, s, c => contextAfter config rest s (part.report config (s, c)).2.2

/-- The sections of parts on one session. -/
def sectionsAlone (config : Configuration) (parts : List Part) (s : Session) (c : Context σ) :
    List String :=
  (outcomes config parts s c).flatMap fun entry => entry.1.lines entry.2

theorem outcomes_append
    (config : Configuration)
    (before after : List Part)
    (s : Session)
    (c : Context σ) :
    outcomes config (before ++ after) s c =
      outcomes config before s c ++ outcomes config after s (contextAfter config before s c) := by
  induction before generalizing c with
  | nil => rfl
  | cons part rest ih =>
      simp only [List.cons_append, outcomes, contextAfter, ih]

/-- A part that fails leaves the context as it was. -/
theorem context_report_of_error
    {config : Configuration}
    {part : Part}
    {s : Session}
    {c : Context σ}
    {f : Fault}
    (h : (part.report config (s, c)).1 = .error f) :
    (part.report config (s, c)).2.2 = c := by
  have hending := ending_report config part s c
  have houtcome := congrArg Prod.fst hending
  have hcontext := congrArg Prod.snd hending
  simp only [ending, h] at houtcome
  simp only [ending] at hcontext
  cases hsketch : part.sketch config s c.referenceLoaded with
  | error g =>
      rw [hcontext, hsketch]
      rfl
  | ok sketches =>
      rw [hsketch] at houtcome
      cases houtcome

/-! ### Sections -/

/-- A section is made of the outcome of its report alone. -/
theorem inSection_report
    (config : Configuration)
    (part : Part)
    (state : Session × Context σ) :
    let ran := part.report config state
    let told := inSection part.heading part.subject (part.report config) state
    told.1 = part.lines ran.1 ∧ told.2.1 = ran.2.1 ∧ told.2.2.quiet = ran.2.2.quiet := by
  intro ran told
  simp only [told, inSection]
  cases h : part.report config state with
  | mk outcome after =>
      have hran : ran = (outcome, after) := h
      rw [hran]
      cases outcome with
      | ok blocks => exact ⟨rfl, rfl, rfl⟩
      | error f => exact ⟨rfl, rfl, rfl⟩

/-- Parts that are run one after the other make the sections that they make on one and the same session:
none of them changes what the next one sees. -/
theorem sectionsOf_eq
    (config : Configuration)
    (parts : List Part)
    {s t : Session}
    {c d : Context σ}
    (hsight : t.sight = s.sight)
    (hquiet : d.quiet = c.quiet) :
    (sectionsOf config parts (t, d)).1 = sectionsAlone config parts s c := by
  induction parts generalizing t c d with
  | nil => rfl
  | cons part rest ih =>
      have hreads := reads_report (σ := σ) config part
      have houtcome : (part.report config (t, d)).1 = (part.report config (s, c)).1 := by
        rw [hreads.answer t d, hreads.answer s c, hsight, hquiet]
      have hcontext :
          (part.report config (t, d)).2.2.quiet = (part.report config (s, c)).2.2.quiet := by
        rw [hreads.context t d, hreads.context s c, hsight, hquiet]
      have hsession : (part.report config (t, d)).2.1.sight = s.sight := by
        rw [hreads.sight_session t d, hsight]
      obtain ⟨hlines, hafter, hnoted⟩ := inSection_report config part (t, d)
      simp only [sectionsOf, sectionsAlone, outcomes, List.flatMap_cons]
      rw [hlines, houtcome]
      congr 1
      refine ih ?_ ?_
      · rw [hafter, hsession]
      · rw [hnoted, hcontext]

/-! ### Which parts there are -/

/-- The parts that are shown for what a session sees, if its rows can be counted. -/
def shownParts (s : Session) : Except Fault (List Part) :=
  match (countEvents s).1 with
  | .error f => .error f
  | .ok 0 =>
      match (countBlocks s).1 with
      | .error f => .error f
      | .ok 0 => .ok []
      | .ok (_ + 1) => .ok (Part.all.filter fun part => !part.readsLog)
  | .ok (_ + 1) => .ok Part.all

/-- Counting fixes the contents of a transaction, and its answer is the same from then on. -/
theorem countBlocks_fixView
    (s : Session) :
    countBlocks s.fixView = ((countBlocks s).1, s.fixView) := by
  simp only [countBlocks, Session.read, Session.tables_fixView, Session.fixView_fixView]

/-- The top counts fail where the parts cannot be told, and otherwise show their sections. -/
theorem topCounts_outcome
    (config : Configuration)
    (s : Session)
    (c : Context σ) :
    (topCounts config (s, c)).1 =
      (shownParts s).map fun parts => sectionsAlone config parts s c := by
  have hsections : ∀ parts,
      (sectionsOf config parts (s.fixView, c)).1 = sectionsAlone config parts s c :=
    fun parts => sectionsOf_eq config parts s.sight_fixView rfl
  have hcounted : countEvents s = ((countEvents s).1, s.fixView) := rfl
  unfold topCounts shownParts
  dsimp only
  rw [hcounted]
  rcases (countEvents s).1 with f | n
  · rfl
  · cases n with
    | succ n => simp only [hsections, Except.map]
    | zero =>
        simp only [countBlocks_fixView]
        rcases (countBlocks s).1 with f | n
        · rfl
        · cases n with
          | zero => rfl
          | succ n => simp only [hsections, Except.map]

/-- A part that fails makes no difference to the others. -/
theorem outcomes_of_error
    {config : Configuration}
    {before after : List Part}
    {part : Part}
    {s : Session}
    {c : Context σ}
    {f : Fault}
    (h : (part.report config (s, contextAfter config before s c)).1 = .error f) :
    outcomes config (before ++ part :: after) s c =
      outcomes config before s c ++
        (part, .error f) :: outcomes config after s (contextAfter config before s c) := by
  rw [outcomes_append]
  simp only [outcomes, h, context_report_of_error h]

/-! ### What is shown for which counts -/

section Counts

variable {s : Session}

theorem shownParts_of_events
    {n : Nat}
    (hcounted : (countEvents s).1 = .ok n)
    (hn : 0 < n) :
    shownParts s = .ok Part.all := by
  cases n with
  | zero => cases hn
  | succ n => simp only [shownParts, hcounted]

theorem shownParts_of_blocks
    {n : Nat}
    (hcounted : (countEvents s).1 = .ok 0)
    (hblocked : (countBlocks s).1 = .ok n) :
    shownParts s = .ok (if n = 0 then [] else [.firewallBlocks, .countrySummary]) := by
  simp only [shownParts, hcounted, hblocked]
  cases n with
  | zero => rfl
  | succ n => rfl

/-- The parts cannot be told exactly if counting fails that is needed for it. -/
theorem shownParts_eq_error_iff
    {f : Fault} :
    shownParts s = .error f ↔
      (countEvents s).1 = .error f ∨ (countEvents s).1 = .ok 0 ∧ (countBlocks s).1 = .error f := by
  constructor
  · intro h
    unfold shownParts at h
    split at h
    · next g hcounted =>
        cases h
        exact Or.inl hcounted
    · next hcounted =>
        split at h
        · next g hblocked =>
            cases h
            exact Or.inr ⟨hcounted, hblocked⟩
        · cases h
        · cases h
    · cases h
  · rintro (hcounted | ⟨hcounted, hblocked⟩)
    · simp only [shownParts, hcounted]
    · simp only [shownParts, hcounted, hblocked]

end Counts

/-- The top counts of a log with events show the eight parts in their order, each as its own report on
the same session makes it, with what the parts before it left in the cache.  A part that fails makes no
difference to what the others come to.  The top counts of an empty log show the blocks and the
countries, if something is blocked; and only counting can make the top counts themselves fail. -/
theorem topCounts_isolates_parts
    (config : Configuration)
    (s : Session)
    (c : Context σ) :
    let counted := (countEvents s).1
    let blocked := (countBlocks s).1
    let outcome := (topCounts config (s, c)).1
    (∀ n, counted = .ok n → 0 < n → outcome = .ok (sectionsAlone config Part.all s c)) ∧
    (∀ n, counted = .ok 0 → blocked = .ok n →
      outcome =
        .ok
          (if n = 0 then []
            else sectionsAlone config [.firewallBlocks, .countrySummary] s c)) ∧
    (∀ f, outcome = .error f ↔ counted = .error f ∨ counted = .ok 0 ∧ blocked = .error f) ∧
    Part.all.map Part.heading =
      ["## Top IPs by event count", "## Top UIDs by event count",
        "## Top IPs by session success rate", "## Top UIDs by session success rate",
        "## Top (possibly) open sessions from foreign IPs",
        "## Foreign IPs used by directory accounts", "## Active firewall blocks",
        "## Countries of origin"] ∧
    (∀ (before : List Part) (part : Part) (after : List Part) (f : Fault),
      let between := contextAfter config before s c
      (part.report config (s, between)).1 = .error f →
      outcomes config (before ++ part :: after) s c =
        outcomes config before s c ++ (part, .error f) :: outcomes config after s between ∧
      outcomes config (before ++ after) s c =
        outcomes config before s c ++ outcomes config after s between) := by
  intro counted blocked outcome
  have houtcome : outcome = (shownParts s).map fun parts => sectionsAlone config parts s c :=
    topCounts_outcome config s c
  refine ⟨?_, ?_, ?_, rfl, ?_⟩
  · intro n hcounted hn
    rw [houtcome, shownParts_of_events hcounted hn]
    rfl
  · intro n hcounted hblocked
    rw [houtcome, shownParts_of_blocks hcounted hblocked]
    cases n with
    | zero => rfl
    | succ n => rfl
  · intro f
    rw [houtcome, ← shownParts_eq_error_iff]
    cases shownParts s with
    | error g => exact ⟨fun h => by cases h; rfl, fun h => by cases h; rfl⟩
    | ok parts => exact ⟨nofun, nofun⟩
  · intro before part after f between hfailed
    exact ⟨outcomes_of_error hfailed, outcomes_append config before after s c⟩

/-- A log of one opened session by an account whose id is no number, without a table of blocks. -/
def brokenLog : Session :=
  { committed :=
      ⟨some [⟨"203.0.113.5", .openSession, .text "root", "2024-03-01 08:00:00"⟩], none⟩
    now := 1709294400 }

/-- The parts that cannot cope with that say so in their sections, and the others follow. -/
theorem brokenLog_shows_all_parts :
    (countEvents brokenLog).1 = .ok 1 ∧
    (topCounts {} (brokenLog, Context.idle)).1 =
      .ok
        ["## Top IPs by event count", noMatchingData,
          "## Top UIDs by event count", noMatchingData,
          "## Top IPs by session success rate", noMatchingData,
          "## Top UIDs by session success rate", noMatchingData,
          "## Top (possibly) open sessions from foreign IPs",
          "ERROR:  Failed to produce top (possibly) open sessions from foreign IPs: " ++
            "Invalid column type Text at index: 0, name: uid",
          "## Foreign IPs used by directory accounts", referenceUnavailable,
          "## Active firewall blocks",
          "ERROR:  Failed to produce active firewall blocks: no such table: block_now: " ++
            "Error code 1: SQL error or missing database",
          "## Countries of origin", noMatchingData] := by
  obtain ⟨hall, -, -, -, -⟩ := topCounts_isolates_parts {} brokenLog Context.idle
  refine ⟨rfl, ?_⟩
  rw [hall 1 rfl Nat.one_pos]
  refine congrArg Except.ok ?_
  decide +kernel

end Task
end AccessAudit
