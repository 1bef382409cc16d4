import AccessAudit.Mail.Message
import AccessAudit.Proofs.Basic

/-!
# Messages from texts

There is a message from a sender to recipients if and only if all of them are mailboxes.
-/

namespace AccessAudit
namespace Mail

/-- The mailboxes that texts denote, in order. -/
def Denotes (texts : List String) (boxes : List Mailbox) : Prop :=
  List.Forall₂ (fun text box => Mailbox.ofText text = .ok box) texts boxes

/-- A text that denotes a mailbox. -/
def IsMailbox (text : String) : Prop :=
  ∃ box, Mailbox.ofText text = .ok box

/-! ### Messages -/

section Messages

variable {sender subject text : String} {recipients : List String} {sent : Int}

theorem mapM_readRecipient_eq_ok_iff
    {boxes : List Mailbox} :
    recipients.mapM readRecipient = .ok boxes ↔ Denotes recipients boxes := by
  simp only [mapM_eq_ok_iff, readRecipient, mapError_eq_ok_iff, Denotes]

/-- From a sender to recipients there is a message if all of them are mailboxes. -/
theorem make_eq_ok
    {author : Mailbox}
    {boxes : List Mailbox}
    (hne : recipients ≠ [])
    (hauthor : Mailbox.ofText sender = .ok author)
    (hboxes : Denotes recipients boxes) :
    Message.make sender recipients subject text sent =
      .ok { sender := author, recipients := boxes, subject := subject, sent := sent, text := text } := by
  have hsome : boxes.isEmpty = false := by
    rw [List.isEmpty_eq_false_iff]
    rintro rfl
    cases hboxes
    exact hne rfl
  rw [Message.make, hauthor, mapM_readRecipient_eq_ok_iff.mpr hboxes]
  simp [Except.mapError, bind, Except.bind, hsome]

/-- There is no message if one of them is none. -/
theorem make_eq_error
    (h : ¬(IsMailbox sender ∧ ∀ text ∈ recipients, IsMailbox text)) :
    ∃ f, Message.make sender recipients subject text sent = .error f := by
  cases hmake : Message.make sender recipients subject text sent with
  | error f => exact ⟨f, rfl⟩
  | ok m =>
      obtain ⟨author, hauthor, hrest⟩ := exists_of_bind_eq_ok hmake
      obtain ⟨boxes, hboxes, -⟩ := exists_of_bind_eq_ok hrest
      refine absurd ⟨?_, fun recipient hrecipient => ?_⟩ h
      · exact ⟨author, mapError_eq_ok_iff.mp hauthor⟩
      · obtain ⟨box, hbox⟩ := exists_of_mapM_eq_ok hboxes recipient hrecipient
        exact ⟨box, mapError_eq_ok_iff.mp hbox⟩

/-- Recipients that are mailboxes are never the reason why there is no message. -/
theorem make_ne_recipient_fault
    (h : ∀ text ∈ recipients, IsMailbox text)
    (sender subject text : String)
    (sent : Int)
    (recipient : String)
    (fault : MailboxFault) :
    Message.make sender recipients subject text sent ≠ .error (.recipient recipient fault) := by
  obtain ⟨boxes, hboxes⟩ : ∃ boxes, recipients.mapM readRecipient = .ok boxes :=
    exists_mapM_eq_ok fun text htext => (h text htext).imp fun _ => mapError_eq_ok_iff.mpr
  rw [Message.make, hboxes]
  cases Mailbox.ofText sender with
  | error f => simp [Except.mapError, bind, Except.bind]
  | ok author =>
      simp only [Except.mapError, bind, Except.bind]
      split
      · nofun
      · nofun

end Messages

end Mail
end AccessAudit
