import AccessAudit.Text.Width
import Mathlib.Data.Nat.Find

/-!
# Columns of texts that are put together

The columns of a text need not be the sum of those of its parts, because emoji can be joined across the
place where the parts meet.  The signs of a table join nothing: what stands before and behind one of them
takes the columns that it takes alone.  A text can therefore be cut behind a blank by counting columns,
whatever measure counts them.
-/

namespace AccessAudit
namespace Text

/-- The signs of a table. -/
def IsSign (c : Char) : Prop :=
  c ∈ [' ', '|', '-']

theorem isSign_blank : IsSign ' ' :=
  List.mem_cons_self

theorem isSign_bar : IsSign '|' :=
  List.mem_cons_of_mem _ List.mem_cons_self

theorem isSign_dash : IsSign '-' :=
  List.mem_cons_of_mem _ (List.mem_cons_of_mem _ List.mem_cons_self)

/-- A measure for which the signs of a table take one column each, and separate what stands before them from
what stands behind them. -/
structure Measure.Separates (measure : Measure) : Prop where
  nil : measure [] = 0
  sign : ∀ {c}, IsSign c → ∀ s more, measure (s ++ c :: more) = measure s + 1 + measure more

/-! ### Classes of characters -/

theorem exists_range_of_contains
    {ranges : Ranges}
    {n : Nat}
    (h : ranges.contains n = true) :
    ∃ range ∈ ranges, range.1 ≤ n ∧ n ≤ range.2 := by
  induction ranges with
  | nil => cases h
  | cons range rest ih =>
      obtain ⟨lo, hi⟩ := range
      rw [Ranges.contains] at h
      split at h
      · cases h
      · next hlo =>
          split at h
          · next hhi => exact ⟨(lo, hi), List.mem_cons_self, Nat.le_of_not_lt hlo, hhi⟩
          · obtain ⟨range, hmem, hrange⟩ := ih h
            exact ⟨range, List.mem_cons_of_mem _ hmem, hrange⟩

/-- A range of characters outside of the blocks that hold pictures. -/
def IsPlainRange (range : Nat × Nat) : Prop :=
  range.2 < 0x2300 ∨ (0x2BFF < range.1 ∧ range.2 < 0x1F000) ∨ 0x20000 ≤ range.1

instance (range : Nat × Nat) : Decidable (IsPlainRange range) :=
  inferInstanceAs (Decidable (_ ∨ _ ∨ _))

/-- No character that takes no column is a picture. -/
theorem isPlainRange_of_mem_zeroWidth :
    ∀ range ∈ zeroWidth, IsPlainRange range := by
  decide +kernel

theorem charWidth_of_isPicture
    {c : Char}
    (h : isPicture c = true) :
    charWidth c = 2 := by
  simp only [isPicture, Bool.and_eq_true, Bool.or_eq_true, Bool.not_eq_true', decide_eq_true_eq,
    decide_eq_false_iff_not] at h
  obtain ⟨⟨hblock, hwide⟩, hlast⟩ := h
  have hzero : zeroWidth.contains c.toNat = false := by
    refine Bool.eq_false_iff.mpr fun hzero => ?_
    obtain ⟨range, hmem, hlo, hhi⟩ := exists_range_of_contains hzero
    have hplain := isPlainRange_of_mem_zeroWidth range hmem
    unfold IsPlainRange at hplain
    omega
  have hcode : ¬c.toNat < 0xAD := by omega
  simp only [charWidth, hcode, hzero, hwide, if_false, if_true, Bool.false_eq_true]

/-! ### What joins nothing -/

/-- A character that takes one column wherever it stands, and joins nothing. -/
def StandsAlone (c : Char) : Prop :=
  charWidth c = 1 ∧ textEmoji.contains c.toNat = false ∧ isPicture c = false ∧ isTone c = false ∧
    c ≠ joiner ∧ c ≠ emojiSelector

theorem IsSign.standsAlone
    {c : Char}
    (h : IsSign c) :
    StandsAlone c := by
  simp only [IsSign, List.mem_cons, List.not_mem_nil, or_false] at h
  unfold StandsAlone
  rcases h with rfl | rfl | rfl <;> decide

/-- What joins nothing begins anew, whatever stands before it. -/
theorem widthFrom_alone
    {c : Char}
    (h : StandsAlone c)
    (state : Joining)
    (s : List Char) :
    widthFrom state (c :: s) = 1 + displayWidth s := by
  obtain ⟨hwidth, hemoji, hpicture, htone, hjoiner, hselector⟩ := h
  cases s with
  | nil => simp [widthFrom, hwidth, hpicture, htone]
  | cons d rest => simp [widthFrom, displayWidth, hwidth, hemoji, hpicture, htone, hjoiner, hselector]

/-- A character before one that joins nothing takes the columns that it takes at the end. -/
theorem widthFrom_before_alone
    {c : Char}
    (h : StandsAlone c)
    (state : Joining)
    (d : Char)
    (s : List Char) :
    widthFrom state (d :: c :: s) = widthFrom state [d] + (1 + displayWidth s) := by
  have hselector : c ≠ emojiSelector := h.2.2.2.2.2
  conv_lhs => rw [widthFrom, if_neg (not_and_of_not_right _ hselector)]
  simp only [widthFrom_alone h]
  by_cases hjoiner : d = joiner ∧ state = .picture
  · obtain ⟨rfl, rfl⟩ := hjoiner
    have hpicture : isPicture joiner = false := by decide
    have htone : isTone joiner = false := by decide
    have hwidth : charWidth joiner = 0 := by decide +kernel
    simp [widthFrom, hpicture, htone, hwidth]
  by_cases hform : d = emojiSelector ∧ state = .picture
  · obtain ⟨rfl, rfl⟩ := hform
    have hpicture : isPicture emojiSelector = false := by decide
    have htone : isTone emojiSelector = false := by decide
    have hwidth : charWidth emojiSelector = 0 := by decide +kernel
    simp [widthFrom, hpicture, htone, hwidth]
  rw [if_neg hjoiner, if_neg hform, widthFrom]
  by_cases htone : isTone d = true ∧ state = .picture
  · obtain ⟨hd, rfl⟩ := htone
    simp [hd]
  rw [if_neg htone, if_neg htone]
  by_cases hpicture : isPicture d = true
  · -- a picture takes two columns, unless it is joined to the one before
    by_cases hjoined : state = .joined
    · simp [hpicture, hjoined]
    · simp [hpicture, hjoined, charWidth_of_isPicture hpicture]
  · simp [hpicture]

/-- Before what joins nothing, a text takes the columns that it takes at the end. -/
theorem widthFrom_append_alone
    {c : Char}
    (h : StandsAlone c)
    (state : Joining)
    (s more : List Char) :
    widthFrom state (s ++ c :: more) = widthFrom state s + (1 + displayWidth more) := by
  fun_induction widthFrom state s with
  | case1 state => rw [List.nil_append, widthFrom_alone h, Nat.zero_add]
  | case2 state d hd => rw [List.singleton_append, widthFrom_before_alone h, widthFrom, if_pos hd]
  | case3 state d hd hd' =>
      rw [List.singleton_append, widthFrom_before_alone h, widthFrom, if_neg hd, if_pos hd']
  | case4 state d hd hd' =>
      rw [List.singleton_append, widthFrom_before_alone h, widthFrom, if_neg hd, if_neg hd']
  | case5 state d e rest hform ih =>
      rw [List.cons_append, List.cons_append, widthFrom, if_pos hform, ih, Nat.add_assoc]
  | case6 state d e rest hform hjoiner ih =>
      rw [List.cons_append, List.cons_append, widthFrom, if_neg hform, if_pos hjoiner, ← List.cons_append, ih]
  | case7 state d e rest hform hjoiner hselector ih =>
      rw [List.cons_append, List.cons_append, widthFrom, if_neg hform, if_neg hjoiner, if_pos hselector,
        ← List.cons_append, ih]
  | case8 state d e rest hform hjoiner hselector htone ih =>
      rw [List.cons_append, List.cons_append, widthFrom, if_neg hform, if_neg hjoiner, if_neg hselector,
        if_pos htone, ← List.cons_append, ih]
  | case9 state d e rest hform hjoiner hselector htone hpicture ih =>
      rw [List.cons_append, List.cons_append, widthFrom, if_neg hform, if_neg hjoiner, if_neg hselector,
        if_neg htone, if_pos hpicture, ← List.cons_append, ih, Nat.add_assoc]
  | case10 state d e rest hform hjoiner hselector htone hpicture ih =>
      rw [List.cons_append, List.cons_append, widthFrom, if_neg hform, if_neg hjoiner, if_neg hselector,
        if_neg htone, if_neg hpicture, ← List.cons_append, ih, Nat.add_assoc]

/-- The columns of terminals are separated by the signs of a table. -/
theorem separates_displayWidth :
    Measure.Separates displayWidth where
  nil := displayWidth_nil
  sign h s more := by
    rw [displayWidth, widthFrom_append_alone h.standsAlone, ← displayWidth, Nat.add_assoc]

/-! ### Cutting by columns -/

namespace Measure

variable {measure : Measure}

/-- The longest beginning of a text that takes no more than some columns. -/
def upToColumn (measure : Measure) (columns : Nat) (s : List Char) : List Char :=
  s.take (Nat.findGreatest (fun n => measure (s.take n) ≤ columns) s.length)

namespace Separates

theorem sign_cons
    (h : measure.Separates)
    {c : Char}
    (hc : IsSign c)
    (s : List Char) :
    measure (c :: s) = 1 + measure s := by
  have hsign := h.sign hc [] s
  rwa [List.nil_append, h.nil, Nat.zero_add] at hsign

theorem replicate_append
    (h : measure.Separates)
    {c : Char}
    (hc : IsSign c)
    (n : Nat)
    (s : List Char) :
    measure (List.replicate n c ++ s) = n + measure s := by
  induction n with
  | zero => rw [List.replicate_zero, List.nil_append, Nat.zero_add]
  | succ n ih =>
      rw [List.replicate_succ, List.cons_append, h.sign_cons hc, ih]
      omega

theorem replicate
    (h : measure.Separates)
    {c : Char}
    (hc : IsSign c)
    (n : Nat) :
    measure (List.replicate n c) = n := by
  simpa [h.nil] using h.replicate_append hc n []

theorem append_replicate
    (h : measure.Separates)
    {c : Char}
    (hc : IsSign c)
    (s : List Char)
    (n : Nat) :
    measure (s ++ List.replicate n c) = measure s + n := by
  cases n with
  | zero => simp
  | succ n =>
      rw [List.replicate_succ, h.sign hc, h.replicate hc]
      omega

/-- What ends in a sign, before another sign, is found again by its columns. -/
theorem upToColumn_append
    (h : measure.Separates)
    {c d : Char}
    (hc : IsSign c)
    (hd : IsSign d)
    (s more : List Char) :
    upToColumn measure (measure s + 1) (s ++ c :: d :: more) = s ++ [c] := by
  have htext : s ++ c :: d :: more = (s ++ [c]) ++ d :: more := by simp
  have hgreatest : Nat.findGreatest
      (fun n => measure ((s ++ c :: d :: more).take n) ≤ measure s + 1)
      (s ++ c :: d :: more).length = (s ++ [c]).length := by
    refine Nat.findGreatest_eq_iff.mpr ⟨by simp, fun _ => ?_, fun n hlo hhi => ?_⟩
    · rw [htext, List.take_left, h.sign hc, h.nil]
    · -- a longer beginning has the second sign as well
      obtain ⟨k, hk⟩ : ∃ k, n = (s ++ [c]).length + (k + 1) := ⟨n - (s ++ [c]).length - 1, by omega⟩
      have htake : (s ++ c :: d :: more).take n = s ++ c :: d :: more.take k := by
        rw [htext, hk, List.take_length_add_append, List.take_succ_cons, List.append_assoc,
          List.singleton_append]
      rw [htake, h.sign hc, h.sign_cons hd]
      omega
  rw [upToColumn, hgreatest, htext, List.take_left]

end Separates
end Measure

end Text
end AccessAudit
