import AccessAudit.Calendar.Moment
import AccessAudit.Proofs.Calendar.DateText
import Mathlib.Data.List.TakeWhile

/-!
# Written digits are read back

Numbers are written with the digits of the library and read digit by digit with a fold of their own.  What is
read from the digits of a number is the number, however many zeros stand before them and whatever follows
them, as long as it does not begin with a digit.
-/

namespace AccessAudit
namespace Decimal

theorem digitValue?_of_isDigit
    {c : Char}
    (h : c.isDigit = true) :
    digitValue? c = some (c.toNat - '0'.toNat) := by
  rw [Char.isDigit, Bool.and_eq_true, decide_eq_true_iff, decide_eq_true_iff] at h
  exact if_pos h

theorem isDigit_of_isDigit
    {c : Char}
    (h : c.isDigit = true) :
    isDigit c = true := by
  rw [isDigit, digitValue?_of_isDigit h]
  rfl

theorem foldl_digits
    {ds : List Char}
    (h : ∀ c ∈ ds, c.isDigit = true)
    (n : Nat) :
    ds.foldl (fun n c => n * 10 + (digitValue? c).getD 0) n = Nat.ofDigitChars 10 ds n := by
  induction ds generalizing n with
  | nil => rfl
  | cons c rest ih =>
      obtain ⟨hc, hrest⟩ := List.forall_mem_cons.mp h
      rw [List.foldl_cons, digitValue?_of_isDigit hc, ih hrest, Nat.ofDigitChars_cons, Nat.mul_comm]
      rfl

theorem digitsValue_padded
    (width n : Nat) :
    digitsValue (padded width n) = n :=
  (foldl_digits (fun _ hc => isDigit_of_mem_padded hc) 0).trans (ofDigitChars_padded width n)

theorem all_isDigit_padded
    (width n : Nat) :
    (padded width n).all isDigit = true :=
  List.all_eq_true.mpr fun _ hc => isDigit_of_isDigit (isDigit_of_mem_padded hc)

/-! ### Digits without leading zeros -/

theorem isDigit_of_mem_digits
    {n : Nat}
    {c : Char}
    (h : c ∈ digits n) :
    c.isDigit = true :=
  Nat.isDigit_of_mem_toDigits (by decide) (by decide) h

theorem digitsValue_digits
    (n : Nat) :
    digitsValue (digits n) = n :=
  (foldl_digits (fun _ hc => isDigit_of_mem_digits hc) 0).trans Nat.ofDigitChars_ten_toDigits

theorem takeDigits_digits
    (n : Nat) :
    takeDigits (digits n) = (digits n, []) := by
  have hdigits : ∀ c ∈ digits n, isDigit c = true := fun c hc =>
    isDigit_of_isDigit (isDigit_of_mem_digits hc)
  unfold takeDigits
  rw [List.takeWhile_eq_self_iff.mpr hdigits, List.dropWhile_eq_nil_iff.mpr hdigits]

theorem isGap_of_isDigit
    {c : Char}
    (h : c.isDigit = true) :
    Calendar.isGap c = false := by
  rw [Char.isDigit, Bool.and_eq_true, decide_eq_true_iff, decide_eq_true_iff] at h
  have hlow : '0' ≤ c := h.1
  have hblank : c ≠ ' ' := by
    rintro rfl
    exact absurd hlow (by decide)
  have hcontrol : ¬c ≤ '\r' := fun hle =>
    absurd (Char.le_trans hlow hle) (by decide)
  simp [Calendar.isGap, hblank, hcontrol]

/-- The digits of a number begin with no blank and with no sign. -/
theorem takeSign_digits
    (n : Nat) :
    takeSign ((digits n).dropWhile Calendar.isGap) = (false, digits n) := by
  obtain ⟨c, rest, hfirst⟩ : ∃ c rest, digits n = c :: rest :=
    List.exists_cons_of_ne_nil Nat.toDigits_ne_nil
  have hdigit : c.isDigit = true := by
    refine isDigit_of_mem_digits (n := n) ?_
    rw [hfirst]
    exact List.mem_cons_self
  have hminus : c ≠ '-' := by
    rintro rfl
    exact absurd hdigit (by decide)
  have hplus : c ≠ '+' := by
    rintro rfl
    exact absurd hdigit (by decide)
  rw [hfirst, List.dropWhile_cons_of_neg (by simp [isGap_of_isDigit hdigit])]
  unfold takeSign
  split
  · next heq => exact absurd (List.cons.inj heq).1 hminus
  · next heq => exact absurd (List.cons.inj heq).1 hplus
  · rfl

end Decimal
end AccessAudit
