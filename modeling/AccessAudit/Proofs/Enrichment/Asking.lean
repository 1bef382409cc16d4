import AccessAudit.Proofs.Enrichment.Echo

/-!
# Which questions annotating texts puts to the source

Texts that are annotated one after the other are looked up in their order.  The source is asked about the
address of a text in its turn, unless a record of that address is known by then, and about nothing else.
Here the source keeps a transcript, which changes no annotation.
-/

namespace AccessAudit
namespace Cache

variable {σ : Type}

/-- A transcript of questions about addresses in their order: each is asked about in its turn, unless a
record of it is known by then. -/
inductive AsksInOrder : (Address → Prop) → List Address → Transcript → Prop
  | done {known : Address → Prop} : AsksInOrder known [] []
  | known {known : Address → Prop} {a : Address} {rest : List Address} {said : Transcript}
      (ha : known a) (hrest : AsksInOrder known rest said) : AsksInOrder known (a :: rest) said
  | asked {known : Address → Prop} {a : Address} {answer : Answer} {rest : List Address}
      {said : Transcript} (ha : ¬known a)
      (hrest : AsksInOrder (fun b => known b ∨ b = a ∧ answer.record? ≠ none) rest said) :
      AsksInOrder known (a :: rest) ((a, answer) :: said)

/-- An address of which a record is remembered. -/
def Knows (c : Cache σ) (a : Address) : Prop :=
  c.records.lookup a ≠ none

theorem knows_asked
    (c : Cache σ)
    (a : Address) :
    (c.asked a).Knows = fun b => c.Knows b ∨ b = a ∧ (c.ask c.source a).1.record? ≠ none := by
  funext b
  unfold Knows
  rw [lookup_records_asked, Ne, Option.or_eq_none_iff, not_and_or]
  split
  · next hba => simp [hba]
  · next hba => simp [hba]

/-- One text is looked up as its address demands. -/
theorem annotate_transcribed
    (c : Cache σ)
    (said : Transcript)
    (text : String) :
    ∃ more,
      (c.transcribed said).annotate text =
        ((c.annotate text).1, (c.annotate text).2.transcribed (said ++ more)) ∧
      ∀ rest later, AsksInOrder (c.annotate text).2.Knows rest later →
        AsksInOrder c.Knows ((Address.ofLogged? text).toList ++ rest) (more ++ later) := by
  cases ha : Address.ofLogged? text with
  | none =>
      refine ⟨[], ?_, ?_⟩
      · rw [annotate_of_none ha, annotate_of_none ha, List.append_nil]
      · intro rest later hrest
        rwa [annotate_of_none ha] at hrest
  | some a =>
      rw [annotate_of_address ha, annotate_of_address ha]
      cases hlookup : c.records.lookup a with
      | some r =>
          have hlookup' : (c.transcribed said).records.lookup a = some r := hlookup
          refine ⟨[], ?_, ?_⟩
          · rw [lookup_of_known hlookup, lookup_of_known hlookup', List.append_nil]
          · intro rest later hrest
            rw [lookup_of_known hlookup] at hrest
            exact .known (by simp [Knows, hlookup]) hrest
      | none =>
          have hlookup' : (c.transcribed said).records.lookup a = none := hlookup
          refine ⟨[(a, (c.ask c.source a).1)], ?_, ?_⟩
          · rw [lookup_of_unknown hlookup, lookup_of_unknown hlookup', asked_transcribed]
            rfl
          · intro rest later hrest
            rw [lookup_of_unknown hlookup, knows_asked] at hrest
            exact .asked (by simp [Knows, hlookup]) hrest

/-- Texts that are annotated one after the other ask about their addresses in order, and a transcript of
it changes nothing else. -/
theorem annotateAll_transcribed
    (c : Cache σ)
    (said : Transcript)
    (texts : List String) :
    ∃ more,
      (c.transcribed said).annotateAll texts =
        ((c.annotateAll texts).1, (c.annotateAll texts).2.transcribed (said ++ more)) ∧
      AsksInOrder c.Knows (texts.filterMap Address.ofLogged?) more := by
  induction texts generalizing c said with
  | nil => exact ⟨[], by rw [List.append_nil]; rfl, .done⟩
  | cons text rest ih =>
      obtain ⟨first, hfirst, hasks⟩ := c.annotate_transcribed said text
      obtain ⟨later, hlater, hrest⟩ := ih (c.annotate text).2 (said ++ first)
      refine ⟨first ++ later, ?_, ?_⟩
      · simp only [annotateAll, hfirst, hlater, List.append_assoc]
      · have hall := hasks _ _ hrest
        cases ha : Address.ofLogged? text with
        | none => simpa [ha] using hall
        | some a => simpa [ha] using hall

end Cache
end AccessAudit
