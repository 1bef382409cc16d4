import AccessAudit.Text.Blank
import AccessAudit.Text.CaseFold
import Mathlib.Data.List.Forall2

/-!
# The cases of ASCII letters

Two of the ASCII letters have a third case: the sign of the unit kelvin is a k, and the long s is an s.  The
cases of every other one are its capital and its small letter, because in the table of cases no other range
ends in the small letters.
-/

namespace AccessAudit
namespace Text

theorem toNat_toLower
    (c : Char) :
    c.toLower.toNat = if 65 ≤ c.toNat ∧ c.toNat ≤ 90 then c.toNat + 32 else c.toNat := by
  have hupper : (c.val ≥ 'A'.val ∧ c.val ≤ 'Z'.val) ↔ 65 ≤ c.toNat ∧ c.toNat ≤ 90 := Iff.rfl
  unfold Char.toLower
  split
  · next h =>
      obtain ⟨hlo, hhi⟩ := hupper.mp h
      rw [if_pos ⟨hlo, hhi⟩]
      show (c.val + ('a'.val - 'A'.val)).toNat = c.val.toNat + 32
      have hc : c.val.toNat ≤ 90 := hhi
      rw [UInt32.toNat_add]
      exact Nat.mod_eq_of_lt (show c.val.toNat + 32 < 2 ^ 32 by omega)
  · next h => rw [if_neg (mt hupper.mpr h)]

/-- An ASCII letter whose cases are two ASCII letters: any but k and s. -/
def IsPlainLetter (c : Char) : Prop :=
  c.isAlpha = true ∧ c.toLower ≠ 'k' ∧ c.toLower ≠ 's'

instance (c : Char) : Decidable (IsPlainLetter c) :=
  inferInstanceAs (Decidable (_ ∧ _))

/-- The code of a small letter other than k and s. -/
def IsPlainCode (n : Nat) : Prop :=
  97 ≤ n ∧ n ≤ 122 ∧ n ≠ 107 ∧ n ≠ 115

theorem IsPlainLetter.isPlainCode
    {c : Char}
    (h : IsPlainLetter c) :
    IsPlainCode c.toLower.toNat := by
  obtain ⟨halpha, hk, hs⟩ := h
  have hletter : (65 ≤ c.toNat ∧ c.toNat ≤ 90) ∨ (97 ≤ c.toNat ∧ c.toNat ≤ 122) := by
    have hcases : (decide (c.val ≥ 'A'.val ∧ c.val ≤ 'Z'.val) ||
        decide (c.val ≥ 'a'.val) && decide (c.val ≤ 'z'.val)) = true := halpha
    simp only [Bool.or_eq_true, Bool.and_eq_true, decide_eq_true_eq] at hcases
    exact hcases
  have hk' : c.toLower.toNat ≠ 107 := fun h => hk (Char.toNat_inj.mp h)
  have hs' : c.toLower.toNat ≠ 115 := fun h => hs (Char.toNat_inj.mp h)
  refine ⟨?_, ?_, hk', hs'⟩
  · rw [toNat_toLower]
    split <;> omega
  · rw [toNat_toLower]
    split <;> omega

/-- A range of characters whose representatives are no small letters but k and s, unless it is that of the
capital letters. -/
def foldsElsewhere (range : Nat × Nat × Nat × Int) : Bool :=
  range = (0x41, 0x5A, 1, 32) ∨ range.2.1 + range.2.2.2 < 97 ∨ 122 < range.1 + range.2.2.2 ∨
    (range.1 = range.2.1 ∧ (range.1 + range.2.2.2 = 107 ∨ range.1 + range.2.2.2 = 115))

theorem foldsElsewhere_of_mem :
    ∀ range ∈ foldRanges, foldsElsewhere range = true := by
  decide +kernel

theorem eq_or_of_foldIn
    {m n : Nat}
    (hn : IsPlainCode n)
    {ranges : List (Nat × Nat × Nat × Int)}
    (hranges : ∀ range ∈ ranges, foldsElsewhere range = true)
    (h : foldIn ranges m = n) :
    m = n ∨ (65 ≤ m ∧ m ≤ 90 ∧ m + 32 = n) := by
  induction ranges with
  | nil => exact .inl h
  | cons range rest ih =>
      obtain ⟨hrange, hrest⟩ := List.forall_mem_cons.mp hranges
      obtain ⟨lo, hi, step, distance⟩ := range
      rw [foldIn] at h
      split at h
      · next hinside =>
          simp only [foldsElsewhere, Prod.mk.injEq, Bool.decide_or, Bool.decide_and, Bool.or_eq_true,
            Bool.and_eq_true, decide_eq_true_eq] at hrange
          obtain ⟨hlo, hhi, hk, hs⟩ := hn
          omega
      · exact ih hrest h

theorem foldCase_eq_iff
    {n : Nat}
    (hn : IsPlainCode n)
    (d : Char) :
    foldCase d = n ↔ d.toLower.toNat = n := by
  have hsmall : ('a' ≤ d ∧ d ≤ 'z') ↔ 97 ≤ d.toNat ∧ d.toNat ≤ 122 := Iff.rfl
  have hn' := hn
  obtain ⟨hlo, hhi, -, -⟩ := hn'
  rw [foldCase, toNat_toLower]
  split
  · next hd =>
      have hd := hsmall.mp hd
      rw [if_neg (by omega)]
  · next hd =>
      have hd := mt hsmall.mpr hd
      constructor
      · intro h
        rcases eq_or_of_foldIn hn foldsElsewhere_of_mem h with h | h
        · omega
        · rw [if_pos ⟨h.1, h.2.1⟩, h.2.2]
      · intro h
        split at h
        · next hcapital =>
            show foldIn ((0x41, 0x5A, 1, 32) :: _) d.toNat = n
            rw [foldIn, if_pos ⟨hcapital.1, hcapital.2, Nat.mod_one _⟩]
            omega
        · omega

/-- In the table of cases no representative stands before the small letters. -/
theorem small_le_of_mem_foldRanges :
    ∀ range ∈ foldRanges, 97 ≤ range.1 + range.2.2.2 := by
  decide +kernel

/-- What is folded is folded to a small letter or beyond. -/
theorem foldIn_cases
    {ranges : List (Nat × Nat × Nat × Int)}
    (hranges : ∀ range ∈ ranges, 97 ≤ range.1 + range.2.2.2)
    (n : Nat) :
    foldIn ranges n = n ∨ 97 ≤ foldIn ranges n := by
  induction ranges with
  | nil => exact .inl rfl
  | cons range rest ih =>
      obtain ⟨hrange, hrest⟩ := List.forall_mem_cons.mp hranges
      obtain ⟨lo, hi, step, distance⟩ := range
      rw [foldIn]
      split
      · next hinside =>
          dsimp only at hrange
          exact .inr (by omega)
      · exact ih hrest

theorem foldCase_cases
    (c : Char) :
    foldCase c = c.toNat ∨ 97 ≤ foldCase c := by
  rw [foldCase]
  split
  · exact .inl rfl
  · exact foldIn_cases small_le_of_mem_foldRanges c.toNat

/-- A line feed is the case of no other character. -/
theorem eq_of_sameLetter_feed
    {c : Char}
    (h : sameLetter c '\n' = true) :
    c = '\n' := by
  rw [sameLetter, Bool.or_eq_true, decide_eq_true_eq, decide_eq_true_eq] at h
  rcases h with rfl | h
  · rfl
  · have hfeed : foldCase '\n' = 10 := by decide +kernel
    rw [hfeed] at h
    rcases foldCase_cases c with hc | hc
    · exact Char.toNat_inj.mp (hc.symm.trans h)
    · omega

/-- A word in other cases has a line feed only if it has one itself. -/
theorem feed_not_mem_of_sameLetters
    {name word : List Char}
    (hname : '\n' ∉ name)
    (h : List.Forall₂ (fun c d => sameLetter c d = true) name word) :
    '\n' ∉ word := by
  induction h with
  | nil => exact hname
  | cons hcase _ ih =>
      rw [List.mem_cons, not_or] at hname ⊢
      refine ⟨?_, ih hname.2⟩
      rintro rfl
      exact hname.1 (eq_of_sameLetter_feed hcase).symm

/-- The cases of a plain letter are the two of ASCII. -/
theorem sameLetter_iff
    {c : Char}
    (hc : IsPlainLetter c)
    (d : Char) :
    sameLetter c d = true ↔ d.toLower = c.toLower := by
  have hfold := (foldCase_eq_iff hc.isPlainCode c).mpr rfl
  have hsame : sameLetter c d = true ↔ c = d ∨ foldCase d = c.toLower.toNat := by
    rw [sameLetter, Bool.or_eq_true, decide_eq_true_eq, decide_eq_true_eq, hfold, eq_comm (b := foldCase d)]
  rw [hsame, foldCase_eq_iff hc.isPlainCode, Char.toNat_inj]
  exact or_iff_right_of_imp fun h => h ▸ rfl

/-- A word is a name of plain letters in other cases if and only if it is that name but for case in ASCII. -/
theorem forall₂_sameLetter_iff
    {name word : List Char}
    (hname : ∀ c ∈ name, IsPlainLetter c) :
    List.Forall₂ (fun c d => sameLetter c d = true) name word ↔ lowerAscii word = lowerAscii name := by
  induction name generalizing word with
  | nil => simp [lowerAscii]
  | cons c rest ih =>
      obtain ⟨hc, hrest⟩ := List.forall_mem_cons.mp hname
      cases word with
      | nil => simp [lowerAscii]
      | cons d word =>
          have hcons : lowerAscii (d :: word) = lowerAscii (c :: rest) ↔
              d.toLower = c.toLower ∧ lowerAscii word = lowerAscii rest := by
            simp only [lowerAscii, List.map_cons, List.cons.injEq]
          rw [List.forall₂_cons, sameLetter_iff hc, ih hrest, hcons]

end Text
end AccessAudit
