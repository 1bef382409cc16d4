import AccessAudit.Calendar.Period
import AccessAudit.Decimal.Grouped
import AccessAudit.Proofs.Calendar.DateText
import AccessAudit.Proofs.Double.Digits
import AccessAudit.Proofs.Table.Markdown

/-!
# Cells that are computed

What a report computes is written in digits, signs and letters: counts, periods, rates, days and weekdays.  None
of these characters ends a line or cuts one, so such a cell is plain whatever its value is.
-/

namespace AccessAudit

/-! ### Characters without a meaning -/

namespace Markdown

/-- Characters that neither end a line nor cut one, wherever they stand. -/
def Inert (s : List Char) : Prop :=
  ∀ c ∈ s, c ≠ '|' ∧ endsLine c = false

instance (s : List Char) : Decidable (Inert s) :=
  List.decidableBAll _ s

@[simp] theorem inert_cons
    {c : Char}
    {s : List Char} :
    Inert (c :: s) ↔ (c ≠ '|' ∧ endsLine c = false) ∧ Inert s :=
  List.forall_mem_cons

@[simp] theorem inert_append
    {s t : List Char} :
    Inert (s ++ t) ↔ Inert s ∧ Inert t :=
  List.forall_mem_append

theorem inert_of_isDigit
    {s : List Char}
    (h : ∀ c ∈ s, c.isDigit = true) :
    Inert s := by
  intro c hc
  constructor
  · rintro rfl
    exact absurd (h _ hc) (by decide)
  · rw [endsLine, Bool.or_eq_false_iff, decide_eq_false_iff_not, decide_eq_false_iff_not]
    constructor
    · rintro rfl
      exact absurd (h _ hc) (by decide)
    · rintro rfl
      exact absurd (h _ hc) (by decide)

theorem bars_of_inert
    {s : List Char}
    (h : Inert s)
    (escaped : Bool) :
    bars escaped s = 0 := by
  induction s generalizing escaped with
  | nil => rfl
  | cons c rest ih =>
      obtain ⟨⟨hbar, -⟩, hrest⟩ := inert_cons.mp h
      rw [bars, if_neg fun hc => hbar hc.1, ih hrest]

theorem isPlain_of_inert
    {text : String}
    (h : Inert text.toList) :
    IsPlain text where
  noEnd c hc := (h c hc).2
  noBar := bars_of_inert h false

theorem isPlain_ofList
    {s : List Char}
    (h : Inert s) :
    IsPlain (String.ofList s) :=
  isPlain_of_inert (by rwa [String.toList_ofList])

@[simp] theorem isPlain_empty : IsPlain "" :=
  isPlain_of_inert nofun

end Markdown

/-! ### Numbers -/

namespace Decimal

open Markdown

theorem inert_digits
    (n : Nat) :
    Inert (digits n) :=
  inert_of_isDigit fun _ => isDigit_of_mem_digits

theorem inert_padded
    (width n : Nat) :
    Inert (padded width n) :=
  inert_of_isDigit fun _ => isDigit_of_mem_padded

theorem inert_groupDigits
    {s : List Char}
    (h : Inert s)
    (inside : Bool) :
    Inert (groupDigits s inside) := by
  induction s generalizing inside with
  | nil => exact h
  | cons c rest ih =>
      obtain ⟨hc, hrest⟩ := inert_cons.mp h
      rw [groupDigits]
      split
      · exact inert_cons.mpr ⟨by decide, inert_cons.mpr ⟨hc, ih hrest true⟩⟩
      · exact inert_cons.mpr ⟨hc, ih hrest true⟩

@[simp] theorem isPlain_text
    (n : Int) :
    IsPlain (text n) := by
  refine isPlain_ofList ?_
  unfold signed
  split
  · exact inert_cons.mpr ⟨by decide, inert_digits _⟩
  · exact inert_digits _

@[simp] theorem isPlain_groupedText
    (n : Int) :
    IsPlain (groupedText n) := by
  have hbody : Inert (groupDigits (digits n.natAbs) false) := inert_groupDigits (inert_digits _) false
  refine isPlain_ofList ?_
  unfold grouped
  dsimp only
  split
  · exact inert_cons.mpr ⟨by decide, hbody⟩
  · exact hbody

theorem inert_positional
    (n : Nat)
    (unit : Int) :
    Inert (positional n unit) := by
  unfold positional
  split
  · refine inert_append.mpr ⟨inert_digits n, fun c hc => ?_⟩
    rw [List.eq_of_mem_replicate hc]
    decide
  · dsimp only
    refine inert_append.mpr ⟨fun c hc => inert_padded _ _ c (List.mem_of_mem_take hc), ?_⟩
    exact inert_cons.mpr ⟨by decide, fun c hc => inert_padded _ _ c (List.mem_of_mem_drop hc)⟩

end Decimal

namespace Double

open Markdown

@[simp] theorem isPlain_fixedText
    (places : Nat)
    (x : Double) :
    IsPlain (x.fixedText places) := by
  cases x with
  | nan => exact isPlain_of_inert (show Inert "NaN".toList by decide)
  | signed negative rank h =>
      have hbody :
          Inert (if rank = infiniteRank then "inf".toList
            else Decimal.positional (Decimal.roundEven (rankValue rank * (10 : Rat) ^ places)).toNat
              (-(places : Int))) := by
        split
        · decide
        · exact Decimal.inert_positional _ _
      refine isPlain_ofList ?_
      dsimp only
      split
      · exact inert_cons.mpr ⟨by decide, hbody⟩
      · exact hbody

end Double

/-! ### Times -/

namespace Calendar

open Markdown

theorem inert_clockText
    (seconds : Nat) :
    Inert (clockText seconds) := by
  unfold clockText
  simp only [inert_append, inert_cons, Decimal.inert_padded, and_true, true_and]
  decide

theorem inert_periodOfSeconds
    (total : Nat) :
    Inert (periodOfSeconds total) := by
  have hclock := inert_clockText (total % 86400)
  unfold periodOfSeconds
  dsimp only
  split
  · exact hclock
  · exact inert_append.mpr ⟨by decide, hclock⟩
  · exact inert_append.mpr ⟨inert_append.mpr ⟨Decimal.inert_digits _, by decide⟩, hclock⟩

@[simp] theorem isPlain_periodText
    (seconds : Option Double) :
    IsPlain (periodText seconds) := by
  unfold periodText
  split
  · exact isPlain_ofList (inert_periodOfSeconds _)
  · exact isPlain_empty

@[simp] theorem isPlain_hourlyRate
    (count : Int)
    (seconds : Option Double) :
    IsPlain (hourlyRate count seconds) := by
  unfold hourlyRate
  split
  · split
    · exact Double.isPlain_fixedText _ _
    · exact isPlain_empty
  · exact isPlain_empty

@[simp] theorem isPlain_dateText
    (d : Date) :
    IsPlain d.text := by
  refine isPlain_ofList ?_
  unfold Date.chars
  have hsign : Inert (if d.year < 0 then ['-'] else []) := by
    split
    · decide
    · decide
  simp only [inert_append, inert_cons, Decimal.inert_padded, hsign, and_true, true_and]
  decide

@[simp] theorem isPlain_weekday
    (weekday : Weekday) :
    IsPlain weekday.short := by
  cases weekday <;> exact isPlain_of_inert (by decide)

end Calendar
end AccessAudit
