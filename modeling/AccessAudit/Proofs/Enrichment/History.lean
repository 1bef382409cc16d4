import AccessAudit.Proofs.Enrichment.Soundness

/-!
# The cache over a history of questions

Of a source that writes down what it was asked and what it answered, a cache
that was empty at first holds exactly the records that were answered, after any
history of questions.  From this follows when the source is asked at all: once
for every question about an address of which no record has been answered, and
never otherwise.
-/

namespace AccessAudit

/-- A question put to a cache. -/
inductive Query
  | lookup (a : Address)
  | annotate (text : String)
  deriving DecidableEq

/-- What a cache replies: what it found, or the three columns of an annotation. -/
inductive Reply
  | found (r : Option Record)
  | columns (r : Record)
  deriving Repr, DecidableEq

/-- What a source was asked, and what it answered. -/
abbrev Transcript := List (Address × Answer)

/-- A source that writes down what it is asked and what it answers. -/
def Transcript.keep {σ : Type} (ask : σ → Address → Answer × σ) :
    σ × Transcript → Address → Answer × (σ × Transcript) :=
  fun (source, said) a =>
    let (answer, source) := ask source a
    (answer, (source, said ++ [(a, answer)]))

/-- The records that were answered, each with its address. -/
def Transcript.records (said : Transcript) : List (Address × Record) :=
  said.filterMap fun (a, answer) => answer.record?.map fun r => (a, r)

theorem Transcript.records_concat
    (said : Transcript)
    (a : Address)
    (answer : Answer) :
    Transcript.records (said ++ [(a, answer)]) =
      said.records ++ (answer.record?.map fun r => (a, r)).toList := by
  cases h : answer.record? <;> simp [records, h]

theorem Transcript.mem_records
    {said : Transcript}
    {a : Address}
    {r : Record} :
    (a, r) ∈ said.records ↔ (a, Answer.record r) ∈ said := by
  simp only [records, List.mem_filterMap, Prod.exists, Option.map_eq_some_iff, Prod.mk.injEq]
  constructor
  · rintro ⟨b, answer, hmem, r', hrecord, rfl, rfl⟩
    cases answer with
    | record r => cases hrecord; exact hmem
    | nothing => cases hrecord
    | failure links => cases hrecord
  · intro h
    exact ⟨a, .record r, h, r, rfl, rfl, rfl⟩

namespace Cache

variable {σ : Type}

/-- The same cache over a source that writes down what it is asked. -/
def transcribed (c : Cache σ) (said : Transcript) : Cache (σ × Transcript) :=
  { ask := Transcript.keep c.ask
    source := (c.source, said)
    records := c.records
    countries := c.countries }

/-- Asking is the same with and without a transcript, which it makes longer by one line. -/
theorem asked_transcribed
    (c : Cache σ)
    (said : Transcript)
    (a : Address) :
    (c.transcribed said).asked a =
      (c.asked a).transcribed (said ++ [(a, (c.ask c.source a).1)]) := by
  simp only [asked, transcribed, Transcript.keep]
  cases (c.ask c.source a).1.record? <;> rfl

/-- The cache holds what its source, which keeps a transcript, has answered. -/
structure Transcribes (ask : σ → Address → Answer × σ) (c : Cache (σ × Transcript)) : Prop where
  ask_eq : c.ask = Transcript.keep ask
  records_eq : c.records = c.source.2.records

theorem Transcribes.step
    {ask : σ → Address → Answer × σ}
    {c after : Cache (σ × Transcript)}
    (h : Transcribes ask c)
    (hstep : Step c after) :
    Transcribes ask after := by
  cases hstep with
  | known => exact h
  | @asked a ha =>
      refine ⟨by rw [ask_asked, h.ask_eq], ?_⟩
      rw [records_asked, source_asked, h.ask_eq, h.records_eq]
      exact (Transcript.records_concat _ _ _).symm

end Cache

namespace Query

variable {σ : Type}

/-- The address that a question is about; a text may denote none. -/
def address? : Query → Option Address
  | .lookup a => some a
  | .annotate text => Address.ofLogged? text

/-- How a question is replied to when this is found. -/
def reply : Query → Option Record → Reply
  | .lookup _, found => .found found
  | .annotate _, found => .columns (found.getD ⟨"", "", ""⟩)

/-- Puts a question to a cache. -/
def run : Query → Cache σ → Reply × Cache σ
  | .lookup a, c => (.found (c.lookup a).1, (c.lookup a).2)
  | .annotate text, c => (.columns (c.annotate text).1, (c.annotate text).2)

/-- Puts questions to a cache one after the other. -/
def runAll : List Query → Cache σ → List Reply × Cache σ
  | [], c => ([], c)
  | q :: rest, c =>
      let (reply, c) := q.run c
      let (replies, c) := runAll rest c
      (reply :: replies, c)

section Single

variable {q : Query} {a : Address} {c : Cache σ}

theorem run_of_address
    (hq : q.address? = some a) :
    q.run c = (q.reply (c.lookup a).1, (c.lookup a).2) := by
  cases q with
  | lookup b =>
      cases hq
      rfl
  | annotate text =>
      have htext : Address.ofLogged? text = some a := hq
      simp only [run, Cache.annotate, htext]
      rfl

/-- A question about a remembered address is replied to without asking the source. -/
theorem run_of_known
    {r : Record}
    (hq : q.address? = some a)
    (h : c.records.lookup a = some r) :
    q.run c = (q.reply (some r), c) := by
  rw [run_of_address hq, Cache.lookup_of_known h]

/-- A question about any other address is replied to with what the source answers. -/
theorem run_of_unknown
    (hq : q.address? = some a)
    (h : c.records.lookup a = none) :
    q.run c = (q.reply (c.ask c.source a).1.record?, c.asked a) := by
  rw [run_of_address hq, Cache.lookup_of_unknown h]

/-- A question about no address is replied to with nothing, and no source is asked. -/
theorem run_of_no_address
    (hq : q.address? = none) :
    q.run c = (q.reply none, c) := by
  cases q with
  | lookup b => cases hq
  | annotate text =>
      have htext : Address.ofLogged? text = none := hq
      simp only [run, Cache.annotate, htext]
      rfl

end Single

/-- Every question makes one of the two steps. -/
theorem step_run
    (q : Query)
    (c : Cache σ) :
    Cache.Step c (q.run c).2 := by
  cases hq : q.address? with
  | none =>
      rw [run_of_no_address hq]
      exact .known
  | some a =>
      cases ha : c.records.lookup a with
      | some r =>
          rw [run_of_known hq ha]
          exact .known
      | none =>
          rw [run_of_unknown hq ha]
          exact .asked ha

/-- What survives every step survives a history of questions. -/
theorem runAll_induction
    {P : Cache σ → Prop}
    (hP : ∀ c after, Cache.Step c after → P c → P after)
    (history : List Query)
    {c : Cache σ}
    (hc : P c) :
    P (runAll history c).2 := by
  induction history generalizing c with
  | nil => exact hc
  | cons q rest ih => exact ih (hP c (q.run c).2 (q.step_run c) hc)

/-- A question is replied to alike with and without a transcript. -/
theorem run_transcribed
    (q : Query)
    (c : Cache σ)
    (said : Transcript) :
    ∃ more,
      q.run (c.transcribed said) = ((q.run c).1, (q.run c).2.transcribed more) := by
  cases hq : q.address? with
  | none => exact ⟨said, by rw [run_of_no_address hq, run_of_no_address hq]⟩
  | some a =>
      cases ha : c.records.lookup a with
      | some r =>
          have ha' : (c.transcribed said).records.lookup a = some r := ha
          exact ⟨said, by rw [run_of_known hq ha, run_of_known hq ha']⟩
      | none =>
          have ha' : (c.transcribed said).records.lookup a = none := ha
          refine ⟨said ++ [(a, (c.ask c.source a).1)], ?_⟩
          rw [run_of_unknown hq ha, run_of_unknown hq ha', Cache.asked_transcribed]
          rfl

theorem runAll_transcribed
    (history : List Query)
    (c : Cache σ)
    (said : Transcript) :
    ∃ more,
      runAll history (c.transcribed said) =
        ((runAll history c).1, (runAll history c).2.transcribed more) := by
  induction history generalizing c said with
  | nil => exact ⟨said, rfl⟩
  | cons q rest ih =>
      obtain ⟨first, hfirst⟩ := q.run_transcribed c said
      obtain ⟨more, hrest⟩ := ih (q.run c).2 first
      refine ⟨more, ?_⟩
      simp only [runAll, hfirst, hrest]

section Histories

variable (ask : σ → Address → Answer × σ) (source : σ) (history : List Query)

theorem sound_runAll :
    (runAll history (Cache.fresh ask source)).2.Sound :=
  runAll_induction (fun _ _ hstep h => h.step hstep) history (Cache.sound_fresh ask source)

theorem transcribes_runAll :
    Cache.Transcribes ask (runAll history (Cache.fresh (Transcript.keep ask) (source, []))).2 :=
  runAll_induction (fun _ _ hstep h => h.step hstep) history ⟨rfl, rfl⟩

/-- The cache knows an address exactly if its source has answered with a record of it. -/
theorem lookup_runAll_iff
    {a : Address}
    {r : Record} :
    let c := (runAll history (Cache.fresh (Transcript.keep ask) (source, []))).2
    c.records.lookup a = some r ↔ (a, Answer.record r) ∈ c.source.2 := by
  intro c
  have hsound : c.Sound := sound_runAll (Transcript.keep ask) (source, []) history
  rw [hsound.lookup_eq_some_iff, (transcribes_runAll ask source history).records_eq,
    Transcript.mem_records]

/-- Over a history of questions, too, the transcript makes no difference. -/
theorem runAll_fresh_transcribed :
    let plain := runAll history (Cache.fresh ask source)
    let kept := runAll history (Cache.fresh (Transcript.keep ask) (source, []))
    kept.1 = plain.1 ∧ kept.2 = plain.2.transcribed kept.2.source.2 := by
  intro plain kept
  obtain ⟨more, hmore⟩ := runAll_transcribed history (Cache.fresh ask source) []
  have hkept : kept = (plain.1, plain.2.transcribed more) := hmore
  have hsaid : kept.2.source.2 = more := congrArg (fun x => x.2.source.2) hkept
  refine ⟨congrArg Prod.fst hkept, ?_⟩
  rw [hsaid]
  exact congrArg Prod.snd hkept

/-- An answered record is the reply to every later question about its address. -/
theorem run_of_answered
    {a : Address}
    {r : Record}
    {q : Query}
    (hq : q.address? = some a)
    (more : List Query) :
    let c := (runAll history (Cache.fresh (Transcript.keep ask) (source, []))).2
    let later := (runAll more c).2
    (a, Answer.record r) ∈ c.source.2 →
    q.run later = (q.reply (some r), later) := by
  intro c later hanswered
  have hknown : c.records.lookup a = some r := (lookup_runAll_iff ask source history).mpr hanswered
  have hlater : later.records.lookup a = some r :=
    runAll_induction (fun _ _ hstep h => Cache.lookup_step h hstep) more hknown
  exact run_of_known hq hlater

/-- A question about an address without an answered record is put to the source. -/
theorem run_of_unanswered
    {a : Address}
    {q : Query}
    (hq : q.address? = some a) :
    let c := (runAll history (Cache.fresh (Transcript.keep ask) (source, []))).2
    (∀ r, (a, Answer.record r) ∉ c.source.2) →
    q.run c = (q.reply (ask c.source.1 a).1.record?, c.asked a) := by
  intro c hunanswered
  have hunknown : c.records.lookup a = none := by
    rw [Option.eq_none_iff_forall_not_mem]
    intro r hr
    exact hunanswered r ((lookup_runAll_iff ask source history).mp hr)
  rw [run_of_unknown hq hunknown, (transcribes_runAll ask source history).ask_eq]
  rfl

end Histories

/-- After any history of questions, a cache that was empty at first asks about an address until its source
has answered with a record, and never again, however the source changes its mind and however the address
is spelled.  The source keeps a transcript here, so that the statement can say what it was asked. -/
theorem runAll_asks_until_answered
    (ask : σ → Address → Answer × σ)
    (source : σ)
    (history : List Query) :
    let plain := runAll history (Cache.fresh ask source)
    let kept := runAll history (Cache.fresh (Transcript.keep ask) (source, []))
    let c := kept.2
    let said := c.source.2
    -- the transcript changes no reply and nothing that is remembered, which is what was answered
    (kept.1 = plain.1 ∧ c = plain.2.transcribed said ∧ c.records = said.records) ∧
    -- once a record of an address was answered, every question about it, whenever it comes and however
    -- it is spelled, is replied to with that record and reaches no source
    (∀ a r, (a, Answer.record r) ∈ said →
      ∀ (more : List Query) (q : Query), q.address? = some a →
        let later := (runAll more c).2
        q.run later = (q.reply (some r), later)) ∧
    -- before that every question about it asks the source once, and keeps nothing without a record
    (∀ a, (∀ r, (a, Answer.record r) ∉ said) →
      ∀ q : Query, q.address? = some a →
        let answer := (ask c.source.1 a).1
        let after := (q.run c).2
        (q.run c).1 = q.reply answer.record? ∧
        after.source = ((ask c.source.1 a).2, said ++ [(a, answer)]) ∧
        (answer.record? = none → after.records = c.records ∧ after.countries = c.countries)) ∧
    -- a text that is no address is annotated with blanks and reaches no source
    (∀ text, Address.ofLogged? text = none →
      (Query.annotate text).run c = (.columns ⟨"", "", ""⟩, c)) ∧
    -- each address is remembered once, and the countries are those of what is remembered
    (c.records.map Prod.fst).Nodup ∧
    c.countries.Pairwise (· < ·) ∧
    (∀ code, code ∈ c.countries ↔ code ≠ "" ∧ code ∈ c.codes) ∧
    c.countryCounts.map Prod.fst = c.countries ∧
    (∀ code n, (code, n) ∈ c.countryCounts → n = c.codes.count code ∧ 1 ≤ n) ∧
    (c.countryCounts.map Prod.snd).sum = c.codes.countP fun code => code ≠ "" := by
  intro plain kept c said
  have hsound : c.Sound := sound_runAll (Transcript.keep ask) (source, []) history
  have htranscribes : Cache.Transcribes ask c := transcribes_runAll ask source history
  refine ⟨?_, ?_, ?_, ?_, hsound.nodup, hsound.ascending, hsound.mem_countries, ?_,
    fun code n hmem => hsound.count_of_mem hmem, hsound.sum_countryCounts⟩
  · obtain ⟨hreplies, hcache⟩ := runAll_fresh_transcribed ask source history
    exact ⟨hreplies, hcache, htranscribes.records_eq⟩
  · intro a r hanswered more q hq later
    exact run_of_answered ask source history hq more hanswered
  · intro a hunanswered q hq answer after
    have hrun : q.run c = (q.reply answer.record?, c.asked a) :=
      run_of_unanswered ask source history hq hunanswered
    have hask : c.ask c.source a = (answer, ((ask c.source.1 a).2, said ++ [(a, answer)])) := by
      rw [htranscribes.ask_eq]
      rfl
    refine ⟨congrArg Prod.fst hrun, ?_, ?_⟩
    · simp only [after, hrun, Cache.source_asked, hask]
    · intro hnone
      have hnothing : (c.ask c.source a).1.record? = none := by rw [hask, hnone]
      simp only [after, hrun, Cache.asked_of_none hnothing, true_and]
  · intro text htext
    exact run_of_no_address htext
  · simp [Cache.countryCounts, Function.comp_def]

/-- A source that fails at first and answers with one record from then on. -/
def lateSource : Nat → Address → Answer × Nat :=
  fun calls _ =>
    (if calls = 0 then .failure ["connection reset"]
      else .record ⟨"198.51.100.0/24", "US", "EXAMPLE-NET"⟩, calls + 1)

/-- An address that is asked about twice, in two spellings. -/
def twoSpellings : List Query :=
  [.annotate "2001:db8::1", .annotate " 2001:DB8:0::1/64 "]

/-- The second spelling is answered, and from then on the source is left alone. -/
theorem twoSpellings_answered :
    let c := (runAll twoSpellings (Cache.fresh (Transcript.keep lateSource) (0, []))).2
    let a := Address.v6 0x20010db8000000000000000000000001
    c.source.2 =
      [(a, .failure ["connection reset"]),
        (a, .record ⟨"198.51.100.0/24", "US", "EXAMPLE-NET"⟩)] ∧
    (lookup a).run c = (.found (some ⟨"198.51.100.0/24", "US", "EXAMPLE-NET"⟩), c) ∧
    (annotate "unknown").run c = (.columns ⟨"", "", ""⟩, c) := by
  intro c a
  have hsaid : c.source.2 =
      [(a, .failure ["connection reset"]),
        (a, .record ⟨"198.51.100.0/24", "US", "EXAMPLE-NET"⟩)] := by
    decide +kernel
  obtain ⟨-, hanswered, -, hblank, -⟩ := runAll_asks_until_answered lateSource 0 twoSpellings
  refine ⟨hsaid, ?_, hblank "unknown" (by decide +kernel)⟩
  exact hanswered a _ (by rw [hsaid]; simp) [] (.lookup a) rfl

end Query
end AccessAudit
