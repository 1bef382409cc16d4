import AccessAudit.Proofs.Enrichment.History

/-!
# Sources that are functions of the address

A source may always give the same answer about the same address.  Then an
annotation does not depend on what the cache remembers, and a text whose address
was asked about once can be annotated again without a change to the cache: either
its record is remembered, or the source is asked once more and knows nothing, as
before.
-/

namespace AccessAudit

theorem Answer.record?_eq_some_iff
    {answer : Answer}
    {r : Record} :
    answer.record? = some r ↔ answer = .record r := by
  cases answer with
  | record s => simp [record?]
  | nothing => simp [record?]
  | failure links => simp [record?]

namespace Cache

/-- The annotation of a text by a source that is a function of the address. -/
def noted (answer : Address → Answer) (text : String) : Record :=
  ((Address.ofLogged? text).bind fun a => (answer a).record?).getD {}

/-- A source that is a function of the address and writes down what it is asked. -/
def consult (answer : Address → Answer) :
    Unit × Transcript → Address → Answer × (Unit × Transcript) :=
  Transcript.keep fun u a => (answer a, u)

/-- A cache over such a source, in which nothing else is remembered than what that source says. -/
structure Echoes (answer : Address → Answer) (c : Cache (Unit × Transcript)) : Prop where
  ask_eq : c.ask = consult answer
  answer_of_lookup : ∀ a r, c.records.lookup a = some r → answer a = .record r

/-- An address about which nothing is left to be learned. -/
def Settled (answer : Address → Answer) (c : Cache (Unit × Transcript)) (a : Address) : Prop :=
  c.records.lookup a = (answer a).record?

/-- A text whose address, if it denotes one, is settled. -/
def SettledText (answer : Address → Answer) (c : Cache (Unit × Transcript)) (text : String) : Prop :=
  ∀ a, Address.ofLogged? text = some a → Settled answer c a

/-- From one cache to the other nothing was learned: the source was asked about addresses at most of
which it knows nothing. -/
structure Rests (answer : Address → Answer) (c d : Cache (Unit × Transcript)) : Prop where
  records : d.records = c.records
  countries : d.countries = c.countries
  asked : ∃ more,
    d.source.2 = c.source.2 ++ more ∧
    ∀ a reply, (a, reply) ∈ more → reply = answer a ∧ (answer a).record? = none

section Rests

variable {answer : Address → Answer} {c d e : Cache (Unit × Transcript)}

theorem Rests.refl : Rests answer c c :=
  ⟨rfl, rfl, [], (List.append_nil _).symm, nofun⟩

theorem Rests.trans
    (hcd : Rests answer c d)
    (hde : Rests answer d e) :
    Rests answer c e := by
  obtain ⟨first, hfirst, hfirstKnown⟩ := hcd.asked
  obtain ⟨second, hsecond, hsecondKnown⟩ := hde.asked
  refine ⟨hde.records.trans hcd.records, hde.countries.trans hcd.countries, first ++ second, ?_, ?_⟩
  · rw [hsecond, hfirst, List.append_assoc]
  · intro a reply hmem
    rcases List.mem_append.mp hmem with h | h
    · exact hfirstKnown a reply h
    · exact hsecondKnown a reply h

theorem Rests.settledText
    (hcd : Rests answer c d)
    {text : String}
    (h : SettledText answer c text) :
    SettledText answer d text := by
  intro a ha
  have hsettled := h a ha
  unfold Settled at hsettled ⊢
  rw [hcd.records, hsettled]

theorem Rests.countryCounts
    (hcd : Rests answer c d) :
    d.countryCounts = c.countryCounts := by
  simp only [Cache.countryCounts, hcd.records, hcd.countries]

end Rests

/-! ### Steps -/

section Steps

variable {answer : Address → Answer} {c after : Cache (Unit × Transcript)} {a b : Address}

theorem Echoes.ask_source
    (h : Echoes answer c)
    (a : Address) :
    c.ask c.source a = (answer a, (c.source.1, c.source.2 ++ [(a, answer a)])) := by
  rw [h.ask_eq]
  rfl

theorem Echoes.lookup_asked
    (h : Echoes answer c)
    (a b : Address) :
    (c.asked a).records.lookup b =
      (c.records.lookup b).or (if b = a then (answer a).record? else none) := by
  rw [lookup_records_asked, h.ask_source]

theorem Echoes.step
    (h : Echoes answer c)
    (hstep : Step c after) :
    Echoes answer after := by
  cases hstep with
  | known => exact h
  | @asked a ha =>
      refine ⟨by rw [ask_asked, h.ask_eq], ?_⟩
      intro b r hb
      rw [h.lookup_asked] at hb
      rcases Option.or_eq_some_iff.mp hb with hb | ⟨-, hb⟩
      · exact h.answer_of_lookup b r hb
      · split at hb
        · next hba =>
            rw [hba]
            exact Answer.record?_eq_some_iff.mp hb
        · cases hb

/-- Once nothing is left to be learned about an address, that stays so. -/
theorem Settled.step
    (hb : Settled answer c b)
    (h : Echoes answer c)
    (hstep : Step c after) :
    Settled answer after b := by
  cases hstep with
  | known => exact hb
  | @asked a ha =>
      unfold Settled at hb ⊢
      rw [h.lookup_asked, hb]
      split
      · next hba =>
          rw [hba]
          exact Option.or_self
      · exact Option.or_none

/-- A lookup finds what the source says, whether or not it has to be asked. -/
theorem Echoes.found_lookup
    (h : Echoes answer c)
    (a : Address) :
    (c.lookup a).1 = (answer a).record? := by
  cases ha : c.records.lookup a with
  | some r =>
      rw [lookup_of_known ha, Answer.record?_eq_some_iff.mpr (h.answer_of_lookup a r ha)]
  | none => rw [lookup_of_unknown ha, h.ask_source]

theorem Echoes.settled_lookup
    (h : Echoes answer c)
    (a : Address) :
    Settled answer (c.lookup a).2 a := by
  cases ha : c.records.lookup a with
  | some r =>
      rw [lookup_of_known ha, Settled, ha]
      exact (Answer.record?_eq_some_iff.mpr (h.answer_of_lookup a r ha)).symm
  | none =>
      rw [lookup_of_unknown ha, Settled, h.lookup_asked, ha]
      simp

/-- A lookup of a settled address teaches nothing. -/
theorem Settled.rests_lookup
    (ha : Settled answer c a)
    (h : Echoes answer c) :
    Rests answer c (c.lookup a).2 := by
  cases hlookup : c.records.lookup a with
  | some r =>
      rw [lookup_of_known hlookup]
      exact .refl
  | none =>
      have hnone : (answer a).record? = none := ha.symm.trans hlookup
      have hasked : (c.ask c.source a).1.record? = none := by rw [h.ask_source, hnone]
      rw [lookup_of_unknown hlookup, asked_of_none hasked, h.ask_source]
      refine ⟨rfl, rfl, [(a, answer a)], rfl, ?_⟩
      intro b reply hmem
      cases List.mem_singleton.mp hmem
      exact ⟨rfl, hnone⟩

end Steps

/-! ### Texts -/

section Texts

variable {answer : Address → Answer} {c : Cache (Unit × Transcript)}

theorem step_annotate
    {σ : Type}
    (c : Cache σ)
    (text : String) :
    Step c (c.annotate text).2 :=
  Query.step_run (.annotate text) c

theorem annotate_of_address
    {σ : Type}
    {c : Cache σ}
    {text : String}
    {a : Address}
    (ha : Address.ofLogged? text = some a) :
    c.annotate text = ((c.lookup a).1.getD {}, (c.lookup a).2) := by
  simp only [annotate, ha]

theorem annotate_of_none
    {σ : Type}
    {c : Cache σ}
    {text : String}
    (ha : Address.ofLogged? text = none) :
    c.annotate text = ({}, c) := by
  simp only [annotate, ha]

theorem Echoes.noted_annotate
    (h : Echoes answer c)
    (text : String) :
    (c.annotate text).1 = noted answer text := by
  unfold noted
  cases ha : Address.ofLogged? text with
  | none => simp [annotate_of_none ha]
  | some a => simp [annotate_of_address ha, h.found_lookup]

theorem Echoes.settled_annotate
    (h : Echoes answer c)
    (text : String) :
    SettledText answer (c.annotate text).2 text := by
  intro a ha
  rw [annotate_of_address ha]
  exact h.settled_lookup a

theorem SettledText.rests_annotate
    {text : String}
    (htext : SettledText answer c text)
    (h : Echoes answer c) :
    Rests answer c (c.annotate text).2 := by
  cases ha : Address.ofLogged? text with
  | none =>
      rw [annotate_of_none ha]
      exact .refl
  | some a =>
      rw [annotate_of_address ha]
      exact (htext a ha).rests_lookup h

/-- What survives every step survives annotating texts one after the other. -/
theorem annotateAll_induction
    {σ : Type}
    {P : Cache σ → Prop}
    (hP : ∀ c after, Step c after → P c → P after)
    (texts : List String)
    {c : Cache σ}
    (hc : P c) :
    P (c.annotateAll texts).2 := by
  induction texts generalizing c with
  | nil => exact hc
  | cons text rest ih => exact ih (hP c _ (c.step_annotate text) hc)

theorem Echoes.annotateAll
    (h : Echoes answer c)
    (texts : List String) :
    Echoes answer (c.annotateAll texts).2 :=
  annotateAll_induction (fun _ _ hstep hc => hc.step hstep) texts h

theorem SettledText.annotateAll
    {text : String}
    (htext : SettledText answer c text)
    (h : Echoes answer c)
    (texts : List String) :
    SettledText answer (c.annotateAll texts).2 text := by
  have hboth : Echoes answer (c.annotateAll texts).2 ∧
      SettledText answer (c.annotateAll texts).2 text := by
    refine annotateAll_induction (P := fun d => Echoes answer d ∧ SettledText answer d text)
      ?_ texts ⟨h, htext⟩
    rintro d after hstep ⟨hd, hsettled⟩
    exact ⟨hd.step hstep, fun a ha => (hsettled a ha).step hd hstep⟩
  exact hboth.2

/-- The records of texts are those that the source knows of them. -/
theorem Echoes.noted_annotateAll
    (h : Echoes answer c)
    (texts : List String) :
    (c.annotateAll texts).1 = texts.map (noted answer) := by
  induction texts generalizing c with
  | nil => rfl
  | cons text rest ih =>
      have hrest := ih (h.step (c.step_annotate text))
      simp only [Cache.annotateAll, List.map_cons, h.noted_annotate, hrest]

/-- After texts were annotated they are settled. -/
theorem Echoes.settled_annotateAll
    (h : Echoes answer c)
    (texts : List String) :
    ∀ text ∈ texts, SettledText answer (c.annotateAll texts).2 text := by
  induction texts generalizing c with
  | nil => exact nofun
  | cons text rest ih =>
      have hafter := h.step (c.step_annotate text)
      intro other hmem
      rcases List.mem_cons.mp hmem with rfl | hmem
      · exact (h.settled_annotate other).annotateAll hafter rest
      · exact ih hafter other hmem

/-- Settled texts are annotated without learning anything. -/
theorem Echoes.rests_annotateAll
    (h : Echoes answer c)
    {texts : List String}
    (htexts : ∀ text ∈ texts, SettledText answer c text) :
    Rests answer c (c.annotateAll texts).2 := by
  induction texts generalizing c with
  | nil => exact .refl
  | cons text rest ih =>
      have hfirst := (htexts text List.mem_cons_self).rests_annotate h
      refine hfirst.trans (ih (h.step (c.step_annotate text)) ?_)
      intro other hmem
      exact hfirst.settledText (htexts other (List.mem_cons_of_mem text hmem))

theorem annotateAll_append
    {σ : Type}
    (c : Cache σ)
    (before after : List String) :
    c.annotateAll (before ++ after) =
      ((c.annotateAll before).1 ++ ((c.annotateAll before).2.annotateAll after).1,
        ((c.annotateAll before).2.annotateAll after).2) := by
  induction before generalizing c with
  | nil => rfl
  | cons text rest ih => simp only [List.cons_append, Cache.annotateAll, ih]

end Texts

/-- A cache that was filled from a source by any questions echoes that source. -/
theorem echoes_runAll
    (answer : Address → Answer)
    (history : List Query) :
    Echoes answer (Query.runAll history (fresh (consult answer) ((), []))).2 := by
  refine Query.runAll_induction (fun _ _ hstep h => h.step hstep) history ⟨rfl, ?_⟩
  intro a r h
  cases h

end Cache
end AccessAudit
