import AccessAudit.Calendar.Date
import Mathlib.Data.List.Basic
import Mathlib.Data.Nat.Digits.Defs
import Mathlib.Logic.Function.Basic

/-!
# The text of a date tells the date

The parts of a date are written between hyphens, which are no digits.  So the text can be cut at them
again, also where the year is negative or a part has more digits than usual.
-/

namespace AccessAudit

namespace Decimal

theorem ofDigitChars_padded
    (width n : Nat) :
    Nat.ofDigitChars 10 (padded width n) 0 = n := by
  unfold padded digits
  induction width - (Nat.toDigits 10 n).length with
  | zero => exact Nat.ofDigitChars_ten_toDigits
  | succ k ih =>
      rw [List.replicate_succ, List.cons_append, Nat.ofDigitChars_cons]
      exact ih

theorem padded_injective
    (width : Nat) :
    Function.Injective (padded width) := by
  intro m n h
  rw [← ofDigitChars_padded width m, h, ofDigitChars_padded]

theorem isDigit_of_mem_padded
    {width n : Nat}
    {c : Char}
    (h : c ∈ padded width n) :
    c.isDigit = true := by
  rcases List.mem_append.mp h with hzero | hdigits
  · rw [List.eq_of_mem_replicate hzero]
    decide
  · exact Nat.isDigit_of_mem_toDigits (by decide) (by decide) hdigits

theorem hyphen_not_mem_padded
    (width n : Nat) :
    '-' ∉ padded width n :=
  fun h => absurd (isDigit_of_mem_padded h) (by decide)

theorem padded_ne_nil
    (width n : Nat) :
    padded width n ≠ [] :=
  List.append_ne_nil_of_right_ne_nil _ Nat.toDigits_ne_nil

end Decimal

namespace Calendar

/-- What stands before and after the first hyphen is determined by the text. -/
theorem eq_of_append_hyphen
    {before before' after after' : List Char}
    (h : before ++ '-' :: after = before' ++ '-' :: after')
    (hbefore : '-' ∉ before)
    (hbefore' : '-' ∉ before') :
    before = before' ∧ after = after' := by
  induction before generalizing before' with
  | nil =>
      cases before' with
      | nil => exact ⟨rfl, (List.cons.inj h).2⟩
      | cons c rest =>
          obtain ⟨rfl, -⟩ := List.cons.inj h
          exact absurd List.mem_cons_self hbefore'
  | cons c rest ih =>
      cases before' with
      | nil =>
          obtain ⟨rfl, -⟩ := List.cons.inj h
          exact absurd List.mem_cons_self hbefore
      | cons c' rest' =>
          obtain ⟨rfl, htail⟩ := List.cons.inj h
          obtain ⟨rfl, rfl⟩ := ih htail (List.not_mem_of_not_mem_cons hbefore)
            (List.not_mem_of_not_mem_cons hbefore')
          exact ⟨rfl, rfl⟩

/-- The text of a date without the sign of its year. -/
def Date.unsignedChars (d : Date) : List Char :=
  Decimal.padded 4 d.year.natAbs ++
    '-' :: (Decimal.padded 2 d.month ++ '-' :: Decimal.padded 2 d.day)

theorem Date.chars_eq
    (d : Date) :
    d.chars = if d.year < 0 then '-' :: d.unsignedChars else d.unsignedChars := by
  unfold Date.chars Date.unsignedChars
  split <;> simp

theorem Date.unsignedChars_inj
    {d d' : Date}
    (h : d.unsignedChars = d'.unsignedChars) :
    d.year.natAbs = d'.year.natAbs ∧ d.month = d'.month ∧ d.day = d'.day := by
  obtain ⟨hyear, hrest⟩ := eq_of_append_hyphen h (Decimal.hyphen_not_mem_padded 4 _)
    (Decimal.hyphen_not_mem_padded 4 _)
  obtain ⟨hmonth, hday⟩ := eq_of_append_hyphen hrest (Decimal.hyphen_not_mem_padded 2 _)
    (Decimal.hyphen_not_mem_padded 2 _)
  exact ⟨Decimal.padded_injective 4 hyear, Decimal.padded_injective 2 hmonth,
    Decimal.padded_injective 2 hday⟩

theorem Date.head?_unsignedChars
    (d : Date) :
    d.unsignedChars.head? ≠ some '-' := by
  have hne := Decimal.padded_ne_nil 4 d.year.natAbs
  unfold Date.unsignedChars
  rw [List.head?_append_of_ne_nil _ hne]
  intro h
  exact Decimal.hyphen_not_mem_padded 4 _ (List.mem_of_mem_head? h)

theorem Date.text_injective : Function.Injective Date.text := by
  intro d d' h
  have hchars : d.chars = d'.chars := String.ofList_injective h
  rw [Date.chars_eq, Date.chars_eq] at hchars
  -- a sign cannot stand where the other text has its first digit
  have hsigned : d.unsignedChars = d'.unsignedChars ∧ (d.year < 0 ↔ d'.year < 0) := by
    split at hchars
    · next hyear =>
        split at hchars
        · next hyear' => exact ⟨(List.cons.inj hchars).2, by simp [hyear, hyear']⟩
        · exact absurd (by rw [← hchars]; rfl) d'.head?_unsignedChars
    · next hyear =>
        split at hchars
        · exact absurd (by rw [hchars]; rfl) d.head?_unsignedChars
        · next hyear' => exact ⟨hchars, by simp [hyear, hyear']⟩
  obtain ⟨hunsigned, hsign⟩ := hsigned
  obtain ⟨hyear, hmonth, hday⟩ := Date.unsignedChars_inj hunsigned
  obtain ⟨year, month, day⟩ := d
  obtain ⟨year', month', day'⟩ := d'
  simp only at hyear hmonth hday hsign
  subst hmonth hday
  have : year = year' := by omega
  rw [this]

end Calendar
end AccessAudit
