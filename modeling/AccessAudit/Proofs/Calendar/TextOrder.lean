import AccessAudit.Proofs.Calendar.DateText
import AccessAudit.Proofs.Calendar.DayNumber
import Mathlib.Data.String.Basic

/-!
# Dates stand in the order of their texts

The parts of a date are written with a fixed number of digits, the year first.  From the year 0 to the
year 9999 the texts of dates therefore stand in the order of the dates.  A text of a date with a time
begins with that of the date, and so it comes after the text of each date up to its own.  The texts of
years before the year 0 begin with a sign, which comes before all digits.
-/

namespace AccessAudit

/-! ### Texts of one length -/

/-- Texts with beginnings of one length are compared by these first. -/
theorem append_lt_append_iff
    {first first' : List Char}
    (hlength : first.length = first'.length)
    (rest rest' : List Char) :
    first ++ rest < first' ++ rest' ↔ first < first' ∨ first = first' ∧ rest < rest' := by
  induction first generalizing first' with
  | nil =>
      obtain rfl := List.length_eq_zero_iff.mp hlength.symm
      simp
  | cons c first ih =>
      cases first' with
      | nil => cases hlength
      | cons c' first' =>
          have hrest := ih (Nat.succ.inj hlength)
          simp only [List.cons_append, List.cons_lt_cons_iff, hrest, List.cons.injEq]
          tauto

namespace Decimal

theorem length_padded
    {width n : Nat}
    (hwidth : 0 < width)
    (hn : n < 10 ^ width) :
    (padded width n).length = width := by
  have hdigits : (digits n).length ≤ width :=
    (Nat.length_toDigits_le_iff (by decide) hwidth).mpr hn
  simp only [padded, List.length_append, List.length_replicate]
  omega

/-- The last digit of a padded number stands after the padded rest of it. -/
theorem padded_succ
    {width : Nat}
    (hwidth : 0 < width)
    (n : Nat) :
    padded (width + 1) n = padded width (n / 10) ++ [Nat.digitChar (n % 10)] := by
  unfold padded digits
  by_cases hn : n < 10
  · have hdiv : n / 10 = 0 := by omega
    have hmod : n % 10 = n := by omega
    rw [hdiv, hmod, Nat.toDigits_of_lt_base hn, Nat.toDigits_zero]
    obtain ⟨k, rfl⟩ : ∃ k, width = k + 1 := ⟨width - 1, by omega⟩
    simp [List.replicate_succ']
  · rw [Nat.toDigits_of_base_le (by decide) (by omega)]
    simp

theorem digitChar_lt_iff
    {m n : Nat}
    (hm : m < 10)
    (hn : n < 10) :
    Nat.digitChar m < Nat.digitChar n ↔ m < n := by
  rw [Char.lt_def, UInt32.lt_iff_toNat_lt]
  have hm' := Nat.toNat_digitChar_of_lt_ten hm
  have hn' := Nat.toNat_digitChar_of_lt_ten hn
  unfold Char.toNat at hm' hn'
  omega

/-- Numbers written with as many digits stand in the order of their texts. -/
theorem padded_lt_iff
    {width m n : Nat}
    (hwidth : 0 < width)
    (hm : m < 10 ^ width)
    (hn : n < 10 ^ width) :
    padded width m < padded width n ↔ m < n := by
  induction width generalizing m n with
  | zero => cases hwidth
  | succ width ih =>
      rcases Nat.eq_zero_or_pos width with rfl | hpos
      · have hone : ∀ k < 10, padded 1 k = [Nat.digitChar k] := by
          intro k hk
          simp [padded, digits, Nat.toDigits_of_lt_base hk]
        rw [Nat.zero_add, pow_one] at hm hn
        rw [hone m hm, hone n hn, List.cons_lt_cons_iff, digitChar_lt_iff hm hn]
        simp
      · have hm' : m / 10 < 10 ^ width := by omega
        have hn' : n / 10 < 10 ^ width := by omega
        rw [padded_succ hpos, padded_succ hpos,
          append_lt_append_iff ((length_padded hpos hm').trans (length_padded hpos hn').symm),
          ih hpos hm' hn', (padded_injective width).eq_iff, List.cons_lt_cons_iff,
          digitChar_lt_iff (Nat.mod_lt _ (by decide)) (Nat.mod_lt _ (by decide))]
        simp
        omega

end Decimal

namespace Calendar

open Decimal

/-! ### Texts of dates -/

theorem Date.Valid.parts_lt
    {d : Date}
    (h : d.Valid) :
    d.month < 10 ^ 2 ∧ d.day < 10 ^ 2 := by
  have hmonth := h.month_le
  have hday := h.day_le_31
  omega

theorem Date.unsignedChars_length
    {d : Date}
    (h : d.Valid)
    (hyear : d.year.natAbs < 10 ^ 4) :
    d.unsignedChars.length = 10 := by
  obtain ⟨hmonth, hday⟩ := h.parts_lt
  simp only [Date.unsignedChars, List.length_append, List.length_cons,
    length_padded (by decide) hyear, length_padded (by decide) hmonth,
    length_padded (by decide) hday]

theorem Date.unsignedChars_lt_iff
    {d d' : Date}
    (h : d.Valid)
    (h' : d'.Valid)
    (hyear : d.year.natAbs < 10 ^ 4)
    (hyear' : d'.year.natAbs < 10 ^ 4) :
    d.unsignedChars < d'.unsignedChars ↔
      d.year.natAbs < d'.year.natAbs ∨
      d.year.natAbs = d'.year.natAbs ∧
        (d.month < d'.month ∨ d.month = d'.month ∧ d.day < d'.day) := by
  obtain ⟨hmonth, hday⟩ := h.parts_lt
  obtain ⟨hmonth', hday'⟩ := h'.parts_lt
  unfold Date.unsignedChars
  rw [append_lt_append_iff
      ((length_padded (by decide) hyear).trans (length_padded (by decide) hyear').symm),
    List.cons_lt_cons_iff,
    append_lt_append_iff
      ((length_padded (by decide) hmonth).trans (length_padded (by decide) hmonth').symm),
    List.cons_lt_cons_iff, padded_lt_iff (by decide) hyear hyear',
    padded_lt_iff (by decide) hmonth hmonth', padded_lt_iff (by decide) hday hday',
    (padded_injective 4).eq_iff, (padded_injective 2).eq_iff]
  simp

theorem sign_lt_of_mem_padded
    {width n : Nat}
    {c : Char}
    (h : c ∈ padded width n) :
    '-' < c := by
  have hdigit := isDigit_of_mem_padded h
  rw [Char.isDigit, Bool.and_eq_true, decide_eq_true_iff, decide_eq_true_iff] at hdigit
  exact lt_of_lt_of_le (by decide) hdigit.1

/-! ### Dates with times -/

/-- A date of one of the years from 0 to 9999, with a time of day. -/
structure Stamp where
  date : Date
  hour : Nat
  minute : Nat
  second : Nat
  valid : date.Valid
  year_nonneg : 0 ≤ date.year
  year_le : date.year ≤ 9999
  hour_lt : hour < 24
  minute_lt : minute < 60
  second_lt : second < 60

/-- The text `YYYY-MM-DD HH:MM:SS`. -/
def Stamp.text (t : Stamp) : String :=
  String.ofList
    (t.date.chars ++
      ' ' :: (padded 2 t.hour ++ ':' :: padded 2 t.minute ++ ':' :: padded 2 t.second))

/-- A date with a time comes before the text of a date if and only if its day comes before that date. -/
theorem Stamp.text_lt_iff
    (t : Stamp)
    {d : Date}
    (hd : d.Valid)
    (hyear : d.year ≤ 9999) :
    t.text < d.text ↔ t.date.toDay < d.toDay := by
  have hlow := t.year_nonneg
  have hhigh := t.year_le
  rw [Date.toDay_lt_iff t.valid hd, String.lt_iff_toList_lt]
  unfold Stamp.text Date.text
  rw [String.toList_ofList, String.toList_ofList, Date.chars_eq, Date.chars_eq, if_neg (by omega)]
  by_cases hneg : d.year < 0
  · rw [if_pos hneg]
    -- the first digit of the stamp comes after the sign of the date
    obtain ⟨c, rest, hfirst⟩ := List.exists_cons_of_ne_nil (padded_ne_nil 4 t.date.year.natAbs)
    have hsign : '-' < c := sign_lt_of_mem_padded (hfirst ▸ List.mem_cons_self)
    constructor
    · intro hlt
      simp only [Date.unsignedChars, hfirst, List.cons_append, List.cons_lt_cons_iff] at hlt
      rcases hlt with hlt | ⟨heq, -⟩
      · exact absurd hlt (lt_asymm hsign)
      · exact absurd heq hsign.ne'
    · intro hbefore
      unfold Date.Before at hbefore
      omega
  · rw [if_neg hneg]
    have hyear' : d.year.natAbs < 10 ^ 4 := by omega
    have hyear'' : t.date.year.natAbs < 10 ^ 4 := by omega
    have hlength := (Date.unsignedChars_length t.valid hyear'').trans
      (Date.unsignedChars_length hd hyear').symm
    rw [← List.append_nil d.unsignedChars, append_lt_append_iff hlength,
      Date.unsignedChars_lt_iff t.valid hd hyear'' hyear']
    simp only [List.not_lt_nil, and_false, or_false]
    unfold Date.Before
    omega

end Calendar
end AccessAudit
