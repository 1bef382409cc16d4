import AccessAudit.Mail.Delivery
import AccessAudit.Proofs.Mail.Dialogue
import AccessAudit.Proofs.Mail.Message

/-!
# A delivery goes one way

A report goes nowhere, to the output, or to a relay, and it goes there as a whole.  It counts as mailed if and
only if the relay has taken the message for everybody; where it refuses the sender or anybody, it has not been
told anything of the report.
-/

namespace AccessAudit
namespace Mail

/-! ### Refusals -/

/-- The relay does not answer favourably to the sender of a message, or to one of its recipients. -/
def Relay.RefusesEnvelope (relay : Relay) (m : Message) : Prop :=
  ¬relay.Accepts (.hello :: envelope m []) ∨
    ∃ before box after, m.recipients = before ++ box :: after ∧
      ¬relay.Accepts (.hello :: envelope m (before ++ [box]))

/-- A command that announces or holds the content of a message. -/
def Command.IsContent : Command → Prop
  | .data | .content _ => True
  | _ => False

theorem not_isContent_of_mem_envelope
    {m : Message}
    {boxes : List Mailbox}
    {c : Command}
    (h : c ∈ Relay.envelope m boxes) :
    ¬c.IsContent := by
  rcases List.mem_cons.mp h with rfl | h
  · exact id
  · obtain ⟨box, -, rfl⟩ := List.mem_map.mp h
    exact id

namespace Relay

variable {relay : Relay} {m : Message}

theorem refusesEnvelope_iff :
    relay.RefusesEnvelope m ↔ ¬relay.AcceptsEach [.hello] (envelope m m.recipients) := by
  rw [acceptsEach_envelope, not_and_or]
  simp only [RefusesEnvelope, not_forall, exists_prop]

theorem not_takes_of_refusesEnvelope
    (h : relay.RefusesEnvelope m) :
    ¬relay.Takes m := by
  rw [takes_iff, commands_eq, acceptsEach_append]
  exact fun htakes => refusesEnvelope_iff.mp h htakes.2.1

/-- A relay that refuses the envelope is told nothing of the content. -/
theorem not_isContent_of_mem_told
    (h : relay.RefusesEnvelope m)
    {c : Command}
    (hc : c ∈ (relay.submit m).2) :
    ¬c.IsContent := by
  rcases submit_cases relay m with ⟨htakes, -⟩ | ⟨-, f, told, hsubmit, htold⟩
  · exact absurd htakes (not_takes_of_refusesEnvelope h)
  · rw [hsubmit] at hc
    rcases htold with rfl | rfl | rfl | ⟨before, d, after, hcommands, hbefore, -, rfl⟩
    · cases hc
    · obtain rfl := List.mem_singleton.mp hc
      exact id
    · simp only [List.mem_cons, List.not_mem_nil, or_false] at hc
      rcases hc with rfl | rfl
      · exact id
      · exact id
    · -- what was accepted is less than the envelope, so the refused command still belongs to it
      have henvelope : ∀ e ∈ before ++ [d], e ∈ envelope m m.recipients := by
        rw [commands_eq] at hcommands
        rcases List.append_eq_append_iff.mp hcommands with ⟨more, rfl, -⟩ | ⟨more, hmore, hrest⟩
        · exact absurd (acceptsEach_append.mp hbefore).1 (refusesEnvelope_iff.mp h)
        · cases more with
          | nil =>
              rw [List.append_nil] at hmore
              rw [← hmore] at hbefore
              exact absurd hbefore (refusesEnvelope_iff.mp h)
          | cons e more =>
              obtain ⟨rfl, -⟩ := List.cons.inj hrest
              rw [hmore]
              intro e he
              simp only [List.mem_append, List.mem_cons, List.not_mem_nil, or_false] at he ⊢
              exact he.imp_right .inl
      simp only [List.mem_cons, List.mem_append, List.not_mem_nil, or_false] at hc
      rcases hc with (rfl | hc) | rfl | rfl
      · exact id
      · exact not_isContent_of_mem_envelope (henvelope c (List.mem_append_left _ hc))
      · exact not_isContent_of_mem_envelope (henvelope c (by simp))
      · exact id

end Relay

/-! ### Deliveries -/

section Deliveries

variable {p : Postage} {recipients : List String} {relay : Relay} {r : Report} {cpu : CpuTime} {now : Int}

/-- No relay has to do with a delivery: nothing is told, and it ends in the same way with every other relay. -/
structure Alone (p : Postage) (recipients : List String) (relay : Relay) (r : Report) (cpu : CpuTime)
    (now : Int) : Prop where
  told : (deliver p recipients relay r cpu now).told = []
  same : ∀ other, deliver p recipients other r cpu now = deliver p recipients relay r cpu now

theorem alone_of_eq
    {d : Delivered}
    (h : ∀ relay, deliver p recipients relay r cpu now = d)
    (htold : d.told = []) :
    Alone p recipients relay r cpu now := by
  refine ⟨?_, fun other => ?_⟩
  · rw [h, htold]
  · rw [h, h]

theorem deliver_nothing
    (hsections : r.sections = []) :
    deliver p recipients relay r cpu now = { result := .ok .suppressed } :=
  if_pos (by rw [Report.isEmpty, hsections]; rfl)

theorem isEmpty_eq_false
    (hsections : r.sections ≠ []) :
    r.isEmpty = false := by
  rwa [Report.isEmpty, List.isEmpty_eq_false_iff]

theorem deliver_printed
    (hsections : r.sections ≠ [])
    (hrecipients : recipients = []) :
    deliver p recipients relay r cpu now =
      { result := .ok .printed, printed := r.render cpu ++ "\n" } := by
  simp [deliver, isEmpty_eq_false hsections, hrecipients]

theorem deliver_of_message_error
    (hsections : r.sections ≠ [])
    (hrecipients : recipients ≠ [])
    {f : MessageFault}
    (hmessage : reportMessage p recipients r cpu now = .error f) :
    deliver p recipients relay r cpu now = { result := .error (.message f) } := by
  simp [deliver, isEmpty_eq_false hsections, hrecipients, hmessage]

/-- A message is mailed to everybody if the relay takes it, and otherwise the delivery fails. -/
theorem deliver_of_message
    (relay : Relay)
    (hsections : r.sections ≠ [])
    (hrecipients : recipients ≠ [])
    {m : Message}
    (hmessage : reportMessage p recipients r cpu now = .ok m) :
    let d := deliver p recipients relay r cpu now
    d.printed = "" ∧ d.told = (relay.submit m).2 ∧
      ((relay.Takes m ∧ d.result = .ok (.mailed recipients.length)) ∨
        (¬relay.Takes m ∧ ∃ f, d.result = .error (.relay p.host f))) := by
  have hsome : recipients.isEmpty = false := List.isEmpty_eq_false_iff.mpr hrecipients
  rcases Relay.submit_cases relay m with ⟨htakes, hsubmit⟩ | ⟨hrefused, f, told, hsubmit, -⟩
  · simp only [deliver, isEmpty_eq_false hsections, hsome, hmessage, hsubmit]
    exact ⟨rfl, rfl, .inl ⟨htakes, rfl⟩⟩
  · simp only [deliver, isEmpty_eq_false hsections, hsome, hmessage, hsubmit]
    exact ⟨rfl, rfl, .inr ⟨hrefused, f, rfl⟩⟩

end Deliveries

/-- **A delivery goes one way, and all of it goes there.**  Without sections a report is suppressed: nothing is
printed, and no relay has to do with it.  With sections and without recipients the whole report is printed once,
and no relay has to do with it.  With recipients nothing is printed.  If the sender or a recipient is no
mailbox, then the delivery fails, and no relay has to do with it.  Otherwise there is a message with one
mailbox for each recipient, and the delivery counts as mailed to all of them if and only if the relay takes
it; it fails in every other case.  A relay that takes the message has been told the sender, each recipient in
order and the content, once each; one that refuses the sender or a recipient has been told nothing of the
content. -/
theorem deliver_goes_one_way
    (p : Postage)
    (recipients : List String)
    (relay : Relay)
    (r : Report)
    (cpu : CpuTime)
    (now : Int) :
    let d := deliver p recipients relay r cpu now
    (r.sections = [] →
      d.result = .ok .suppressed ∧ d.printed = "" ∧ Alone p recipients relay r cpu now) ∧
    (r.sections ≠ [] → recipients = [] →
      d.result = .ok .printed ∧ d.printed = r.render cpu ++ "\n" ∧
        Alone p recipients relay r cpu now) ∧
    (r.sections ≠ [] → recipients ≠ [] →
      d.printed = "" ∧
      (¬(IsMailbox p.sender ∧ ∀ text ∈ recipients, IsMailbox text) →
        (∃ f, d.result = .error (.message f)) ∧ Alone p recipients relay r cpu now) ∧
      ∀ author boxes, Mailbox.ofText p.sender = .ok author → Denotes recipients boxes →
        let m : Message :=
          { sender := author, recipients := boxes, subject := r.subject p.tag, sent := now,
            text := r.render cpu }
        boxes.length = recipients.length ∧
        (d.result = .ok (.mailed recipients.length) ↔ relay.Takes m) ∧
        (¬relay.Takes m → ∃ f, d.result = .error (.relay p.host f)) ∧
        (relay.Takes m →
          d.told =
            .hello :: .sender author.address m.isInternational m.isEightBit ::
              (boxes.map fun box => .recipient box.address) ++ [.data, .content m.chars, .quit]) ∧
        (relay.RefusesEnvelope m → ∀ c ∈ d.told, ¬c.IsContent)) := by
  intro d
  refine ⟨fun hsections => ?suppressed, fun hsections hnone => ?printed, fun hsections hsome => ?mailed⟩
  case suppressed =>
    have hd : d = _ := deliver_nothing hsections
    rw [hd]
    exact ⟨rfl, rfl, alone_of_eq (fun _ => deliver_nothing hsections) rfl⟩
  case printed =>
    have hd : d = _ := deliver_printed hsections hnone
    rw [hd]
    exact ⟨rfl, rfl, alone_of_eq (fun _ => deliver_printed hsections hnone) rfl⟩
  case mailed =>
    refine ⟨?_, fun hnobody => ?_, fun author boxes hauthor hboxes => ?_⟩
    · cases hmessage : reportMessage p recipients r cpu now with
      | error f =>
          have hd : d = _ := deliver_of_message_error hsections hsome hmessage
          rw [hd]
      | ok m => exact (deliver_of_message relay hsections hsome hmessage).1
    · obtain ⟨f, hmessage⟩ : ∃ f, reportMessage p recipients r cpu now = .error f := make_eq_error hnobody
      have hd : d = _ := deliver_of_message_error hsections hsome hmessage
      rw [hd]
      exact ⟨⟨f, rfl⟩,
        alone_of_eq (fun _ => deliver_of_message_error hsections hsome hmessage) rfl⟩
    · intro m
      have hmessage : reportMessage p recipients r cpu now = .ok m := make_eq_ok hsome hauthor hboxes
      obtain ⟨-, htold, hresult⟩ := deliver_of_message relay hsections hsome hmessage
      refine ⟨hboxes.length_eq.symm, ⟨fun hmailed => ?_, fun htakes => ?_⟩, fun hrefused => ?_,
        fun htakes => ?_, fun hrefused c hc => ?_⟩
      · rcases hresult with ⟨htakes, -⟩ | ⟨-, f, hfailed⟩
        · exact htakes
        · cases hmailed.symm.trans hfailed
      · rcases hresult with ⟨-, hmailed⟩ | ⟨hrefused, -⟩
        · exact hmailed
        · exact absurd htakes hrefused
      · rcases hresult with ⟨htakes, -⟩ | ⟨-, hfailed⟩
        · exact absurd htakes hrefused
        · exact hfailed
      · rcases Relay.submit_cases relay m with ⟨-, hsubmit⟩ | ⟨hrefused, -⟩
        · rw [htold, hsubmit]
          simp [Relay.commands_eq, Relay.envelope, m]
        · exact absurd htakes hrefused
      · rw [htold] at hc
        exact Relay.not_isContent_of_mem_told hrefused hc

/-- The mailbox a report comes from. -/
def rootBox : Mailbox := ⟨none, "root", "localhost"⟩

/-- A mailbox of an office. -/
def opsBox : Mailbox := ⟨none, "ops", "example.edu"⟩

/-- A mailbox that has been closed. -/
def secBox : Mailbox := ⟨none, "sec", "example.edu"⟩

/-- What a relay says that has no objection. -/
def assent : Reply := ⟨250, ["ok", "8BITMIME", "SMTPUTF8"]⟩

/-- A relay that does not know the closed mailbox, and takes everything else. -/
def pickyRelay : Relay where
  unreachable := none
  react history :=
    .reply (if .recipient secBox.address ∈ history then ⟨550, ["no such user"]⟩ else assent)

/-- A report with one section. -/
def shortReport : Report :=
  { started := {}, timestamp := "2026-10-16 09:30", header := "# Run", sections := ["## Part"] }

/-- The message that the open mailbox would be sent. -/
def opsMessage : Message :=
  { sender := rootBox, recipients := [opsBox], subject := shortReport.subject "iptracking", sent := 0,
    text := shortReport.render {} }

/-- The first of two recipients is not served without the second: the delivery fails, and the relay has not
been told the report.  Alone he is served. -/
theorem pickyRelay_serves_all_or_nobody :
    let both := deliver {} ["ops@example.edu", "sec@example.edu"] pickyRelay shortReport {} 0
    let one := deliver {} ["ops@example.edu"] pickyRelay shortReport {} 0
    (∃ f, both.result = .error (.relay "localhost" f)) ∧ (∀ c ∈ both.told, ¬c.IsContent) ∧
    one.result = .ok (.mailed 1) ∧
    one.told =
      [.hello, .sender "root@localhost" opsMessage.isInternational opsMessage.isEightBit,
        .recipient "ops@example.edu", .data, .content opsMessage.chars, .quit] := by
  have hroot : Mailbox.ofText ({} : Postage).sender = .ok rootBox := by decide +kernel
  have hops : Mailbox.ofText "ops@example.edu" = .ok opsBox := by decide +kernel
  have hsec : Mailbox.ofText "sec@example.edu" = .ok secBox := by decide +kernel
  have hsections : shortReport.sections ≠ [] := by decide
  have haccepts (history : List Command) (h : .recipient secBox.address ∉ history) :
      pickyRelay.Accepts history :=
    ⟨assent, congrArg Reaction.reply (if_neg h), rfl⟩
  have hboth := (deliver_goes_one_way {} ["ops@example.edu", "sec@example.edu"] pickyRelay shortReport {} 0).2.2
    hsections (by decide)
  have hone := (deliver_goes_one_way {} ["ops@example.edu"] pickyRelay shortReport {} 0).2.2 hsections (by decide)
  obtain ⟨-, -, hfailed, -, huntold⟩ := hboth.2.2 rootBox [opsBox, secBox] hroot (.cons hops (.cons hsec .nil))
  obtain ⟨-, hmailed, -, htold, -⟩ := hone.2.2 rootBox [opsBox] hroot (.cons hops .nil)
  have hrefused : pickyRelay.RefusesEnvelope { opsMessage with recipients := [opsBox, secBox] } := by
    refine .inr ⟨[opsBox], secBox, [], rfl, ?_⟩
    rintro ⟨r, hr, hpositive⟩
    cases hr.symm.trans (congrArg Reaction.reply (if_pos (by simp [Relay.envelope])))
    cases hpositive
  have htakes : pickyRelay.Takes opsMessage := by
    have haddress : secBox.address ≠ opsBox.address := by decide
    have hunnamed : Command.recipient secBox.address ∉ Command.hello :: opsMessage.commands := by
      simp [Relay.commands_eq, Relay.envelope, opsMessage, haddress]
    refine Relay.takes_iff.mpr ⟨⟨rfl, haccepts [] List.not_mem_nil, ?_⟩, fun before c after hcommands => ?_⟩
    · exact ⟨assent, rfl, rfl, fun _ => by decide, fun _ => by decide⟩
    · refine haccepts _ fun h => hunnamed ?_
      rw [hcommands]
      simpa using List.mem_append_left after h
  exact ⟨hfailed (Relay.not_takes_of_refusesEnvelope hrefused), huntold hrefused, hmailed.mpr htakes,
    htold htakes⟩

end Mail
end AccessAudit
