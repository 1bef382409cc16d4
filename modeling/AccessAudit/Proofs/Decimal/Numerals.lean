import AccessAudit.Proofs.Double.Digits
import AccessAudit.Text.Blank

/-!
# Which texts are numerals

A numeral is an optional sign and a run of digits whose value lies within the bounds of the reader.  The
reader stops as soon as its number leaves the bounds; on a run of digits that is exactly when the value of
the whole run does, because further digits only add to it.
-/

namespace AccessAudit
namespace Decimal

/-- A run of digits that makes up a number. -/
structure IsNumeral (ds : List Char) (n : Nat) : Prop where
  ne_nil : ds ≠ []
  digits : ∀ c ∈ ds, c.isDigit = true
  value : Nat.ofDigitChars 10 ds 0 = n

theorem isNumeral_digits
    (n : Nat) :
    IsNumeral (digits n) n :=
  ⟨Nat.toDigits_ne_nil, fun _ hc => isDigit_of_mem_digits hc, Nat.ofDigitChars_ten_toDigits⟩

theorem digits_injective : Function.Injective digits := by
  intro m n h
  rw [← (isNumeral_digits m).value, h, (isNumeral_digits n).value]

theorem digitValue?_of_not_isDigit
    {c : Char}
    (h : c.isDigit = false) :
    digitValue? c = none := by
  refine if_neg fun hc => ?_
  rw [Char.isDigit, Bool.and_eq_false_iff, decide_eq_false_iff_not, decide_eq_false_iff_not] at h
  exact h.elim (absurd hc.1) (absurd hc.2)

theorem isBlank_of_isDigit
    {c : Char}
    (h : c.isDigit = true) :
    Text.isBlank c = false := by
  have hdigit : 48 ≤ c.toNat ∧ c.toNat ≤ 57 := by
    simp only [Char.isDigit, Bool.and_eq_true, decide_eq_true_eq] at h
    exact h
  simp [Text.isBlank]
  omega

theorem le_ofDigitChars
    (ds : List Char)
    (n : Nat) :
    n ≤ Nat.ofDigitChars 10 ds n := by
  induction ds generalizing n with
  | nil => exact Nat.le_refl n
  | cons c rest ih =>
      rw [Nat.ofDigitChars_cons]
      exact Nat.le_trans (by omega) (ih _)

/-- A run of digits is read up to its end or out of the bounds. -/
theorem readDigits_of_digits
    {hi n : Nat}
    {fault : NumeralFault}
    {ds : List Char}
    (hdigits : ∀ c ∈ ds, c.isDigit = true)
    (hn : n ≤ hi) :
    readDigits hi fault n ds =
      if Nat.ofDigitChars 10 ds n ≤ hi then .ok (Nat.ofDigitChars 10 ds n) else .error fault := by
  induction ds generalizing n with
  | nil => exact (if_pos hn).symm
  | cons c rest ih =>
      obtain ⟨hc, hrest⟩ := List.forall_mem_cons.mp hdigits
      have hstep : n * 10 + (c.toNat - '0'.toNat) = 10 * n + (c.toNat - '0'.toNat) := by omega
      simp only [readDigits, digitValue?_of_isDigit hc, Nat.ofDigitChars_cons, hstep]
      by_cases hle : 10 * n + (c.toNat - '0'.toNat) ≤ hi
      · rw [if_pos hle]
        exact ih hrest hle
      · have hmore := le_ofDigitChars rest (10 * n + (c.toNat - '0'.toNat))
        rw [if_neg hle, if_neg (by omega)]

/-- A text with another character in it is no run of digits. -/
theorem isDigit_of_readDigits
    {hi n m : Nat}
    {fault : NumeralFault}
    {ds : List Char}
    (h : readDigits hi fault n ds = .ok m) :
    ∀ c ∈ ds, c.isDigit = true := by
  induction ds generalizing n with
  | nil => exact nofun
  | cons c rest ih =>
      rw [readDigits] at h
      cases hc : c.isDigit with
      | false =>
          rw [digitValue?_of_not_isDigit hc] at h
          cases h
      | true =>
          rw [digitValue?_of_isDigit hc] at h
          dsimp only at h
          split at h
          · exact List.forall_mem_cons.mpr ⟨hc, ih h⟩
          · cases h

theorem readDigits_eq_ok_iff
    {hi m : Nat}
    {fault : NumeralFault}
    {ds : List Char}
    (hne : ds ≠ []) :
    readDigits hi fault 0 ds = .ok m ↔ IsNumeral ds m ∧ m ≤ hi := by
  constructor
  · intro h
    have hdigits := isDigit_of_readDigits h
    rw [readDigits_of_digits hdigits (Nat.zero_le hi)] at h
    split at h
    · next hle =>
        cases h
        exact ⟨⟨hne, hdigits, rfl⟩, hle⟩
    · cases h
  · rintro ⟨⟨-, hdigits, rfl⟩, hle⟩
    rw [readDigits_of_digits hdigits (Nat.zero_le hi), if_pos hle]

/-- A sign is no digit. -/
theorem IsNumeral.head_ne
    {c d : Char}
    {ds : List Char}
    {n : Nat}
    (h : IsNumeral (c :: ds) n)
    (hd : d.isDigit = false) :
    c ≠ d := by
  rintro rfl
  have := h.digits c List.mem_cons_self
  rw [hd] at this
  cases this

/-- A text that denotes a signed number of 64 bits: digits, with or without a sign. -/
def DenotesInt64 (s : List Char) (n : Int) : Prop :=
  -2 ^ 63 ≤ n ∧ n < 2 ^ 63 ∧
  ∃ ds m, IsNumeral ds m ∧
    (((s = ds ∨ s = '+' :: ds) ∧ n = m) ∨ (s = '-' :: ds ∧ n = -(m : Int)))

/-- A run of digits that is read and then given a sign. -/
theorem map_readDigits_eq_ok_iff
    {hi : Nat}
    {fault : NumeralFault}
    {ds : List Char}
    (hne : ds ≠ [])
    {f : Nat → Int}
    {n : Int} :
    (readDigits hi fault 0 ds).map f = .ok n ↔ ∃ m, (IsNumeral ds m ∧ m ≤ hi) ∧ f m = n := by
  have hread : ∀ m, IsNumeral ds m ∧ m ≤ hi ↔ readDigits hi fault 0 ds = .ok m :=
    fun m => (readDigits_eq_ok_iff hne).symm
  simp only [hread]
  cases readDigits hi fault 0 ds with
  | error e => simp [Except.map]
  | ok m => simp [Except.map]

section Signs

variable {s rest : List Char} {n : Int}

theorem denotesInt64_plus_iff :
    DenotesInt64 ('+' :: rest) n ↔ ∃ m, (IsNumeral rest m ∧ m ≤ int64Max) ∧ (m : Int) = n := by
  constructor
  · rintro ⟨-, hhi, ds, m, hds, ⟨rfl | hs, rfl⟩ | ⟨hs, -⟩⟩
    · exact absurd rfl (hds.head_ne (by decide))
    · obtain rfl := (List.cons.inj hs).2
      exact ⟨m, ⟨hds, by simp only [int64Max]; omega⟩, rfl⟩
    · cases (List.cons.inj hs).1
  · rintro ⟨m, ⟨hrest, hm⟩, rfl⟩
    simp only [int64Max] at hm
    exact ⟨by omega, by omega, rest, m, hrest, .inl ⟨.inr rfl, rfl⟩⟩

theorem denotesInt64_minus_iff :
    DenotesInt64 ('-' :: rest) n ↔ ∃ m, (IsNumeral rest m ∧ m ≤ int64Max + 1) ∧ -(m : Int) = n := by
  constructor
  · rintro ⟨hlo, -, ds, m, hds, ⟨rfl | hs, -⟩ | ⟨hs, rfl⟩⟩
    · exact absurd rfl (hds.head_ne (by decide))
    · cases (List.cons.inj hs).1
    · obtain rfl := (List.cons.inj hs).2
      exact ⟨m, ⟨hds, by simp only [int64Max]; omega⟩, rfl⟩
  · rintro ⟨m, ⟨hrest, hm⟩, rfl⟩
    simp only [int64Max] at hm
    exact ⟨by omega, by omega, rest, m, hrest, .inr ⟨rfl, rfl⟩⟩

theorem denotesInt64_unsigned_iff
    (hplus : s.head? ≠ some '+')
    (hminus : s.head? ≠ some '-') :
    DenotesInt64 s n ↔ ∃ m, (IsNumeral s m ∧ m ≤ int64Max) ∧ (m : Int) = n := by
  constructor
  · rintro ⟨-, hhi, ds, m, hds, ⟨rfl | rfl, rfl⟩ | ⟨rfl, -⟩⟩
    · exact ⟨m, ⟨hds, by simp only [int64Max]; omega⟩, rfl⟩
    · exact absurd rfl hplus
    · exact absurd rfl hminus
  · rintro ⟨m, ⟨hs, hm⟩, rfl⟩
    simp only [int64Max] at hm
    exact ⟨by omega, by omega, s, m, hs, .inl ⟨.inl rfl, rfl⟩⟩

theorem readInt64_minus
    (hne : rest ≠ []) :
    readInt64 ('-' :: rest) =
      (readDigits (int64Max + 1) .tooSmall 0 rest).map fun m : Nat => -(m : Int) := by
  cases rest with
  | nil => exact absurd rfl hne
  | cons c rest =>
      simp only [readInt64]
      cases readDigits (int64Max + 1) .tooSmall 0 (c :: rest) <;> rfl

/-- A text is read as a signed number of 64 bits if and only if it denotes that number. -/
theorem readInt64_eq_ok_iff :
    readInt64 s = .ok n ↔ DenotesInt64 s n := by
  have hnothing : ∀ {hi : Nat} {f : Nat → Int}, ¬∃ m, (IsNumeral [] m ∧ m ≤ hi) ∧ f m = n :=
    fun ⟨m, hm, _⟩ => hm.1.ne_nil rfl
  by_cases hplus : s.head? = some '+'
  · obtain ⟨rest, rfl⟩ := List.head?_eq_some_iff.mp hplus
    rw [denotesInt64_plus_iff]
    cases rest with
    | nil => exact iff_of_false nofun hnothing
    | cons c rest => exact map_readDigits_eq_ok_iff (List.cons_ne_nil c rest)
  by_cases hminus : s.head? = some '-'
  · obtain ⟨rest, rfl⟩ := List.head?_eq_some_iff.mp hminus
    rw [denotesInt64_minus_iff]
    cases rest with
    | nil => exact iff_of_false nofun hnothing
    | cons c rest =>
        rw [readInt64_minus (List.cons_ne_nil c rest)]
        exact map_readDigits_eq_ok_iff (List.cons_ne_nil c rest)
  · rw [denotesInt64_unsigned_iff hplus hminus]
    cases s with
    | nil => exact iff_of_false (fun h => by cases h) hnothing
    | cons c rest =>
        have hread : readInt64 (c :: rest) = (readDigits int64Max .tooLarge 0 (c :: rest)).map Int.ofNat := by
          unfold readInt64
          split <;> simp_all
        rw [hread]
        exact map_readDigits_eq_ok_iff (List.cons_ne_nil c rest)

end Signs

theorem denotesInt64_signed
    {n : Int}
    (hlo : -2 ^ 63 ≤ n)
    (hhi : n < 2 ^ 63) :
    DenotesInt64 (signed n) n := by
  refine ⟨hlo, hhi, digits n.natAbs, n.natAbs, isNumeral_digits _, ?_⟩
  unfold signed
  split
  · next hneg => exact .inr ⟨rfl, by omega⟩
  · next hpos => exact .inl ⟨.inl rfl, by omega⟩

theorem signed_ne_nil
    (n : Int) :
    signed n ≠ [] := by
  unfold signed
  split
  · exact List.cons_ne_nil _ _
  · exact (isNumeral_digits _).ne_nil

theorem eq_minus_or_isDigit_of_mem_signed
    {n : Int}
    {c : Char}
    (h : c ∈ signed n) :
    c = '-' ∨ c.isDigit = true := by
  unfold signed at h
  split at h
  · exact (List.mem_cons.mp h).imp_right isDigit_of_mem_digits
  · exact .inr (isDigit_of_mem_digits h)

/-- The digits of a number are read as that number, if it is within the bounds. -/
theorem readNat_digits
    (hi n : Nat) :
    readNat hi (digits n) = if n ≤ hi then .ok n else .error .tooLarge := by
  have hnumeral := isNumeral_digits n
  have hread : readDigits hi .tooLarge 0 (digits n) = if n ≤ hi then .ok n else .error .tooLarge := by
    rw [readDigits_of_digits hnumeral.digits (Nat.zero_le hi), hnumeral.value]
  rw [← hread]
  cases hdigits : digits n with
  | nil => exact absurd hdigits hnumeral.ne_nil
  | cons c rest =>
      rw [hdigits] at hnumeral
      have hplus : c ≠ '+' := hnumeral.head_ne (by decide)
      unfold readNat
      split
      · next heq => cases heq
      · next heq => exact absurd (List.cons.inj heq).1 hplus
      · next heq => exact absurd (List.cons.inj heq).1 hplus
      · rfl

end Decimal
end AccessAudit
