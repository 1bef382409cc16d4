import AccessAudit.Mail.Relay
import Mathlib.Data.List.Basic

/-!
# The dialogue with a relay

A relay is told one command after the other, and the first that is not answered favourably ends the dialogue.
So what it has been told is a beginning of the commands, and a message is taken if and only if the relay can
be reached, allows for what the message needs, and answers every command favourably.
-/

namespace AccessAudit
namespace Mail

namespace Relay

variable {relay : Relay}

/-- The relay answers favourably to what it has been told so far. -/
def Accepts (relay : Relay) (history : List Command) : Prop :=
  ∃ r, relay.react history = .reply r ∧ r.isPositive = true

theorem hear_eq_ok_iff
    {history : List Command}
    {r : Reply} :
    relay.hear history = .ok r ↔ relay.react history = .reply r ∧ r.isPositive = true := by
  unfold hear
  cases relay.react history with
  | broken reason => simp
  | reply given =>
      dsimp only
      split
      · next hpositive =>
          constructor
          · rintro h
            cases h
            exact ⟨rfl, hpositive⟩
          · rintro ⟨h, -⟩
            cases h
            rfl
      · next hnegative =>
          constructor
          · nofun
          · rintro ⟨h, hpositive⟩
            cases h
            exact absurd hpositive hnegative

theorem accepts_iff
    {history : List Command} :
    relay.Accepts history ↔ ∃ r, relay.hear history = .ok r := by
  simp only [Accepts, hear_eq_ok_iff]

/-! ### Commands one after the other -/

/-- The relay answers each of some commands favourably, after the history and the commands before it. -/
def AcceptsEach (relay : Relay) (history commands : List Command) : Prop :=
  ∀ before c after, commands = before ++ c :: after → relay.Accepts (history ++ before ++ [c])

theorem acceptsEach_nil
    (relay : Relay)
    (history : List Command) :
    relay.AcceptsEach history [] := by
  intro before c after h
  simp at h

theorem acceptsEach_append
    {history first second : List Command} :
    relay.AcceptsEach history (first ++ second) ↔
      relay.AcceptsEach history first ∧ relay.AcceptsEach (history ++ first) second := by
  constructor
  · intro h
    refine ⟨fun before c after hfirst => h before c (after ++ second) (by simp [hfirst]), ?_⟩
    intro before c after hsecond
    have hc := h (first ++ before) c after (by simp [hsecond])
    rwa [← List.append_assoc] at hc
  · rintro ⟨hfirst, hsecond⟩ before c after hall
    rcases List.append_eq_append_iff.mp hall with ⟨more, rfl, hmore⟩ | ⟨more, rfl, hmore⟩
    · rw [← List.append_assoc]
      exact hsecond more c after hmore
    · cases more with
      | nil =>
          rw [List.append_nil] at hsecond
          simpa using hsecond [] c after hmore.symm
      | cons d more =>
          obtain ⟨rfl, rfl⟩ := List.cons.inj hmore
          exact hfirst before c more rfl

theorem acceptsEach_singleton
    {history : List Command}
    {c : Command} :
    relay.AcceptsEach history [c] ↔ relay.Accepts (history ++ [c]) := by
  constructor
  · intro h
    simpa using h [] c [] rfl
  · intro h before d after hc
    obtain ⟨rfl, rfl, rfl⟩ : before = [] ∧ c = d ∧ after = [] := by
      cases before with
      | nil => simpa [eq_comm] using hc
      | cons e before => simp at hc
    simpa using h

theorem acceptsEach_cons
    {history rest : List Command}
    {c : Command} :
    relay.AcceptsEach history (c :: rest) ↔
      relay.Accepts (history ++ [c]) ∧ relay.AcceptsEach (history ++ [c]) rest := by
  rw [← List.singleton_append, acceptsEach_append, acceptsEach_singleton]

/-- Commands are all given, or they are given up to the first that is not answered favourably. -/
theorem tell_cases
    (relay : Relay)
    (history commands : List Command) :
    (relay.AcceptsEach history commands ∧
      relay.tell history commands = (history ++ commands, none)) ∨
    ∃ before c after f,
      commands = before ++ c :: after ∧ relay.AcceptsEach history before ∧
      ¬relay.Accepts (history ++ before ++ [c]) ∧
      relay.tell history commands = (history ++ before ++ [c], some f) := by
  induction commands generalizing history with
  | nil => exact .inl ⟨acceptsEach_nil relay history, by simp [tell]⟩
  | cons c rest ih =>
      cases hheard : relay.hear (history ++ [c]) with
      | error f =>
          have hrefused : ¬relay.Accepts (history ++ [c]) := by
            rw [accepts_iff, hheard]
            nofun
          refine .inr ⟨[], c, rest, f, rfl, acceptsEach_nil relay history, ?_, ?_⟩
          · simpa using hrefused
          · simp [tell, hheard]
      | ok r =>
          have haccepted : relay.Accepts (history ++ [c]) := accepts_iff.mpr ⟨r, hheard⟩
          have hstep : relay.tell history (c :: rest) = relay.tell (history ++ [c]) rest := by
            simp [tell, hheard]
          rw [hstep, acceptsEach_cons]
          rcases ih (history ++ [c]) with ⟨hall, htell⟩ | ⟨before, d, after, f, rfl, hbefore, hrefused, htell⟩
          · exact .inl ⟨⟨haccepted, hall⟩, by simp [htell]⟩
          · refine .inr ⟨c :: before, d, after, f, rfl, acceptsEach_cons.mpr ⟨haccepted, hbefore⟩, ?_, ?_⟩
            · simpa using hrefused
            · simp [htell]

/-! ### Messages -/

/-- The commands that tell a relay from whom a message comes and to whom it goes. -/
def envelope (m : Message) (recipients : List Mailbox) : List Command :=
  .sender m.sender.address m.isInternational m.isEightBit ::
    recipients.map fun box => .recipient box.address

/-- The relay can be reached, it greets, and its answer to the greeting allows for what a message needs. -/
structure Admits (relay : Relay) (m : Message) : Prop where
  reachable : relay.unreachable = none
  greeting : relay.Accepts []
  answer : ∃ r, relay.react [.hello] = .reply r ∧ r.isPositive = true ∧
    (m.isInternational = true → r.offers "SMTPUTF8" = true) ∧
    (m.isEightBit = true → r.offers "8BITMIME" = true)

/-- The relay takes a message: it answers favourably to the sender, to each recipient in order, to the
announcement of the content, and to the content. -/
structure Takes (relay : Relay) (m : Message) : Prop extends relay.Admits m where
  sender : relay.Accepts (.hello :: envelope m [])
  recipients : ∀ before box after, m.recipients = before ++ box :: after →
    relay.Accepts (.hello :: envelope m (before ++ [box]))
  data : relay.Accepts (.hello :: envelope m m.recipients ++ [.data])
  content : relay.Accepts (.hello :: envelope m m.recipients ++ [.data, .content m.chars])

theorem commands_eq
    (m : Message) :
    m.commands = envelope m m.recipients ++ [.data, .content m.chars] := by
  simp [Message.commands, envelope]

/-- The commands of an envelope are the sender and then the recipients. -/
theorem acceptsEach_envelope
    {m : Message}
    {boxes : List Mailbox} :
    relay.AcceptsEach [.hello] (envelope m boxes) ↔
      relay.Accepts (.hello :: envelope m []) ∧
        ∀ before box after, boxes = before ++ box :: after →
          relay.Accepts (.hello :: envelope m (before ++ [box])) := by
  have hcommand (before : List Mailbox) (box : Mailbox) :
      [.hello] ++ (envelope m before) ++ [.recipient box.address] =
        .hello :: envelope m (before ++ [box]) := by
    simp [envelope]
  rw [envelope, acceptsEach_cons]
  refine and_congr Iff.rfl ⟨fun h before box after hboxes => ?_, fun h before c after hmap => ?_⟩
  · have hc := h (before.map fun box => .recipient box.address) (.recipient box.address)
      (after.map fun box => .recipient box.address) (by simp [hboxes])
    rw [← hcommand]
    simpa [envelope] using hc
  · obtain ⟨first, rest, rfl, rfl, hrest⟩ := List.map_eq_append_iff.mp hmap
    obtain ⟨box, after, rfl, rfl, rfl⟩ := List.map_eq_cons_iff.mp hrest
    have hbox := h first box after rfl
    rw [← hcommand] at hbox
    simpa [envelope] using hbox

theorem takes_iff
    {m : Message} :
    relay.Takes m ↔ relay.Admits m ∧ relay.AcceptsEach [.hello] m.commands := by
  have hcontent : relay.AcceptsEach ([.hello] ++ envelope m m.recipients) [.data, .content m.chars] ↔
      relay.Accepts (.hello :: envelope m m.recipients ++ [.data]) ∧
        relay.Accepts (.hello :: envelope m m.recipients ++ [.data, .content m.chars]) := by
    rw [acceptsEach_cons, acceptsEach_singleton]
    simp
  rw [commands_eq, acceptsEach_append, acceptsEach_envelope, hcontent]
  constructor
  · rintro ⟨hadmits, hsender, hrecipients, hdata, hcontent⟩
    exact ⟨hadmits, ⟨hsender, hrecipients⟩, hdata, hcontent⟩
  · rintro ⟨hadmits, ⟨hsender, hrecipients⟩, hdata, hcontent⟩
    exact ⟨hadmits, hsender, hrecipients, hdata, hcontent⟩

theorem missing_eq_none_iff
    {greeting : Reply}
    {m : Message} :
    missing greeting m = none ↔
      (m.isInternational = true → greeting.offers "SMTPUTF8" = true) ∧
      (m.isEightBit = true → greeting.offers "8BITMIME" = true) := by
  unfold missing
  cases m.isInternational <;> cases m.isEightBit <;> cases greeting.offers "SMTPUTF8" <;>
    cases greeting.offers "8BITMIME" <;> simp

/-- What a relay is told of a message that it takes, and of one that it does not take: a beginning of the
commands up to the first that is not answered favourably, and a goodbye. -/
theorem submit_cases
    (relay : Relay)
    (m : Message) :
    (relay.Takes m ∧ relay.submit m = (.ok (), .hello :: m.commands ++ [.quit])) ∨
    (¬relay.Takes m ∧ ∃ f told, relay.submit m = (.error f, told) ∧
      (told = [] ∨ told = [.hello] ∨ told = [.hello, .quit] ∨
        ∃ before c after, m.commands = before ++ c :: after ∧ relay.AcceptsEach [.hello] before ∧
          ¬relay.Accepts (.hello :: before ++ [c]) ∧ told = .hello :: before ++ [c, .quit])) := by
  rw [takes_iff]
  unfold submit
  cases hreach : relay.unreachable with
  | some reason =>
      refine .inr ⟨fun h => ?_, _, _, rfl, .inl rfl⟩
      rw [h.1.reachable] at hreach
      cases hreach
  | none =>
      dsimp only
      cases hgreeting : relay.hear [] with
      | error f =>
          refine .inr ⟨fun h => ?_, _, _, rfl, .inl rfl⟩
          obtain ⟨r, hr⟩ := accepts_iff.mp h.1.greeting
          rw [hgreeting] at hr
          cases hr
      | ok welcome =>
          dsimp only
          cases hanswer : relay.hear [.hello] with
          | error f =>
              refine .inr ⟨fun h => ?_, _, _, rfl, .inr (.inr (.inl rfl))⟩
              obtain ⟨r, hr, hpositive, -⟩ := h.1.answer
              rw [hear_eq_ok_iff.mpr ⟨hr, hpositive⟩] at hanswer
              cases hanswer
          | ok answer =>
              obtain ⟨hreply, hpositive⟩ := hear_eq_ok_iff.mp hanswer
              dsimp only
              cases hmissing : missing answer m with
              | some f =>
                  refine .inr ⟨fun h => ?_, _, _, rfl, .inr (.inl rfl)⟩
                  obtain ⟨r, hr, -, hneeds⟩ := h.1.answer
                  rw [hr] at hreply
                  cases hreply
                  rw [missing_eq_none_iff.mpr hneeds] at hmissing
                  cases hmissing
              | none =>
                  have hadmits : relay.Admits m :=
                    ⟨hreach, accepts_iff.mpr ⟨welcome, hgreeting⟩, answer, hreply, hpositive,
                      missing_eq_none_iff.mp hmissing⟩
                  dsimp only
                  rcases tell_cases relay [.hello] m.commands with
                    ⟨hall, htell⟩ | ⟨before, c, after, f, hcommands, hbefore, hrefused, htell⟩
                  · rw [htell]
                    exact .inl ⟨⟨hadmits, hall⟩, rfl⟩
                  · rw [htell]
                    refine .inr ⟨fun h => hrefused (h.2 before c after hcommands), f, _, rfl, ?_⟩
                    refine .inr (.inr (.inr ⟨before, c, after, hcommands, hbefore, hrefused, ?_⟩))
                    simp

end Relay
end Mail
end AccessAudit
