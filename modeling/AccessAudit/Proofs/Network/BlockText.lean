import AccessAudit.Network.Block
import AccessAudit.Proofs.Network.AddressText
import AccessAudit.Proofs.Text.Split

/-!
# Blocks are read back from their text

However a block was spelled, with blanks, zeros or a sign before its length, without a length at all, or
with any groups for its network, it is shown in one way, and reading what is shown gives the same block.
So two blocks are shown alike only if they are the same.  An address with a length behind a slash is a
block exactly if the length does not exceed the bits of the address.
-/

namespace AccessAudit

/-! ### Blanks and slashes -/

namespace Text

theorem trim_of_not_blank
    {s : List Char}
    (h : ∀ c ∈ s, isBlank c = false) :
    trim s = s := by
  have hkept : ∀ t : List Char, (∀ c ∈ t, isBlank c = false) → t.dropWhile isBlank = t := by
    intro t ht
    cases t with
    | nil => rfl
    | cons c rest => exact List.dropWhile_cons_of_neg (by simp [ht c List.mem_cons_self])
  have hreverse : ∀ c ∈ s.reverse, isBlank c = false := fun c hc => h c (List.mem_reverse.mp hc)
  rw [trim, trimStart, hkept s h, trimEnd, hkept s.reverse hreverse, List.reverse_reverse]

end Text

namespace Address

theorem trim_chars
    (a : Address) :
    Text.trim a.chars = a.chars :=
  Text.trim_of_not_blank fun _ hc => (isAddressChar_of_mem_chars hc).not_blank

theorem slash_not_mem_chars
    (a : Address) :
    '/' ∉ a.chars :=
  fun h => (isAddressChar_of_mem_chars h).ne_slash rfl

end Address

namespace Block

theorem trim_digits
    (n : Nat) :
    Text.trim (Decimal.digits n) = Decimal.digits n :=
  Text.trim_of_not_blank fun _ hc => Decimal.isBlank_of_isDigit (Decimal.isDigit_of_mem_digits hc)

/-- The text of an address with a length. -/
def textOf (a : Address) (length : Nat) : String :=
  String.ofList (a.chars ++ '/' :: Decimal.digits length)

theorem splitOnce_textOf
    (a : Address)
    (length : Nat) :
    Text.splitOnce '/' (textOf a length).toList = some (a.chars, Decimal.digits length) := by
  rw [textOf, String.toList_ofList, Text.splitOnce_append a.slash_not_mem_chars]

/-- An address with a length is a block as far as its bits go. -/
theorem ofText_textOf
    (a : Address)
    (length : Nat) :
    ofText (textOf a length) =
      if h : length ≤ a.width then .ok ⟨a, length, h⟩
      else if length ≤ 255 then .error (.tooLong length a.width (textOf a length))
      else .error (.notLength (String.ofList (Decimal.digits length)) .tooLarge) := by
  unfold ofText
  rw [splitOnce_textOf]
  simp only [a.trim_chars, Address.ofText?_chars, trim_digits, Decimal.readNat_digits]
  have hwidth : a.width ≤ 128 := by cases a <;> simp [Address.width]
  by_cases hle : length ≤ 255
  · simp only [if_pos hle]
  · have hlong : ¬length ≤ a.width := by omega
    simp only [if_neg hle, dif_neg hlong]

/-- A block is read back from its text. -/
theorem ofText_text
    (b : Block) :
    ofText b.text = .ok b :=
  (ofText_textOf b.network b.length).trans (dif_pos b.length_le)

theorem ofLogged?_text
    (b : Block) :
    Address.ofLogged? b.text = some b.network := by
  have hsplit : Text.splitOnce '/' b.text.toList = some (b.network.chars, Decimal.digits b.length) :=
    splitOnce_textOf b.network b.length
  rw [Address.ofLogged?, hsplit]
  simp only [Address.trim_chars, Address.ofText?_chars]

/-- Any text of a block names its network. -/
theorem ofLogged?_of_ofText
    {s : String}
    {b : Block}
    (h : ofText s = .ok b) :
    Address.ofLogged? s = some b.network := by
  unfold ofText at h
  unfold Address.ofLogged?
  cases hsplit : Text.splitOnce '/' s.toList with
  | none =>
      simp only [hsplit] at h ⊢
      split at h
      · cases h
      · next network hnetwork =>
          cases h
          exact hnetwork
  | some cut =>
      simp only [hsplit] at h ⊢
      split at h
      · cases h
      · next network hnetwork =>
          split at h
          · cases h
          · split at h
            · cases h
              exact hnetwork
            · cases h

/-- Reading and showing blocks are inverse to each other, whatever the spelling: what is shown of a block
is read as that block and shown in the same way again, and it names the network, as the text that was read
does.  Two texts are shown alike exactly if they are read as the same block.  Every address is read back
from its canonical text, alone and with every length up to its bits; a greater length is refused. -/
theorem text_round_trip :
    (∀ (s : String) (b : Block), ofText s = .ok b →
      ofText b.text = .ok b ∧
      (ofText b.text).map text = .ok b.text ∧
      Address.ofLogged? s = some b.network ∧
      Address.ofLogged? b.text = some b.network) ∧
    (∀ (s t : String) (b c : Block), ofText s = .ok b → ofText t = .ok c →
      (b.text = c.text ↔ b = c)) ∧
    (∀ a : Address,
      Address.ofLogged? a.text = some a ∧
      ofText a.text = .ok ⟨a, a.width, Nat.le_refl _⟩ ∧
      ∀ length,
        let shown := a.text ++ "/" ++ toString length
        (∀ h : length ≤ a.width, ofText shown = .ok ⟨a, length, h⟩) ∧
        (a.width < length →
          ofText shown =
            .error
              (if length ≤ 255 then .tooLong length a.width shown
                else .notLength (toString length) .tooLarge))) := by
  refine ⟨?_, ?_, ?_⟩
  · intro s b h
    refine ⟨b.ofText_text, ?_, ofLogged?_of_ofText h, b.ofLogged?_text⟩
    rw [ofText_text]
    rfl
  · intro s t b c _ _
    refine ⟨fun htext => ?_, congrArg text⟩
    have hread : (.ok b : Except BlockFault Block) = .ok c := by
      rw [← b.ofText_text, htext, c.ofText_text]
    exact Except.ok.inj hread
  · intro a
    have hsplit : Text.splitOnce '/' a.text.toList = none := by
      rw [Address.text, String.toList_ofList, Text.splitOnce_of_not_mem a.slash_not_mem_chars]
    have hchars : a.text.toList = a.chars := String.toList_ofList
    refine ⟨?_, ?_, ?_⟩
    · rw [Address.ofLogged?, hsplit]
      simp only [hchars, a.trim_chars, Address.ofText?_chars]
    · rw [ofText, hsplit]
      simp only [hchars, a.trim_chars, Address.ofText?_chars]
    · intro length shown
      have hlength : toString length = String.ofList (Decimal.digits length) :=
        Nat.toString_eq_ofList_toDigits
      have hshown : shown = textOf a length := by
        refine String.toList_inj.mp ?_
        simp only [shown, textOf, Address.text, hlength, String.toList_append, String.toList_ofList,
          List.append_assoc]
        rfl
      rw [hshown, hlength, ofText_textOf]
      refine ⟨fun h => dif_pos h, fun hlong => ?_⟩
      rw [dif_neg (by omega)]
      split
      · rfl
      · rfl

/-- Two runs of zeros of one length, of which the first is left out; blanks, a sign and a zero before the
length; and lengths at and beyond the bits of an address that is shown in dotted form. -/
theorem spelledBlock_round_trip :
    let b : Block := ⟨.v6 0x20010DB8000000000008000000000001, 64, by decide⟩
    ofText " 2001:DB8:0:0:8:0:0:1 / +064 " = .ok b ∧
    b.text = "2001:db8::8:0:0:1/64" ∧
    ofText "2001:db8::8:0:0:1/64" = .ok b ∧
    (∃ c, ofText "::ffff:192.0.2.1/128" = .ok c ∧ c.network = .v6 0xFFFFC0000201) ∧
    ofText "::ffff:192.0.2.1/129" = .error (.tooLong 129 128 "::ffff:192.0.2.1/129") := by
  intro b
  have hread : ofText " 2001:DB8:0:0:8:0:0:1 / +064 " = .ok b := by decide +kernel
  have hshown : b.text = "2001:db8::8:0:0:1/64" := by decide +kernel
  obtain ⟨hspelled, -, haddress⟩ := text_round_trip
  obtain ⟨hagain, -⟩ := hspelled _ b hread
  rw [hshown] at hagain
  obtain ⟨-, -, hlengths⟩ := haddress (.v6 0xFFFFC0000201)
  exact ⟨hread, hshown, hagain, ⟨_, (hlengths 128).1 (Nat.le_refl _), rfl⟩,
    (hlengths 129).2 (by decide)⟩

end Block
end AccessAudit
