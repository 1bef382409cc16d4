import AccessAudit.Proofs.Network.AddressText
import AccessAudit.Proofs.Text.LetterCase
import AccessAudit.Proofs.Text.Split
import AccessAudit.Proofs.Text.Utf8
import AccessAudit.Proofs.Url.Punycode
import AccessAudit.Url.Domain
import Mathlib

/-!
# Domains are read back

What the rest of an address asks of a reader of domains is said by its laws.  The reader by labels keeps them:
its letters are small, labels beyond ASCII are carried in Punycode, and such a label is read as itself.
-/

namespace AccessAudit
namespace Url

/-- The laws of a reader of domains.  What it has read holds no character that has no place in a domain and is
read as itself, and numbers with dots between them stay as they are. -/
structure Domains.Lawful (domains : Domains) : Prop where
  allowed : ∀ {bytes text}, domains bytes = some text → ∀ c ∈ text, Domain.isForbidden c = false
  again : ∀ {bytes text}, domains bytes = some text → domains (Text.toBytes (String.ofList text)) = some text
  numbers : ∀ {text}, (∀ c ∈ text, c = '.' ∨ c.isDigit = true) →
    domains (Text.toBytes (String.ofList text)) = some text

namespace Domain

/-! ### Characters -/

/-- A code that no capital letter of ASCII has. -/
def NoCapital (c : Char) : Prop :=
  ¬ (65 ≤ c.toNat ∧ c.toNat ≤ 90)

instance (c : Char) : Decidable (NoCapital c) :=
  inferInstanceAs (Decidable (¬ _))

/-- A character that stands in a label as it is written. -/
structure IsLabelChar (c : Char) : Prop where
  ascii : c.toNat < 128
  noCapital : NoCapital c
  noDot : c ≠ '.'
  allowed : isForbidden c = false

theorem noCapital_toLower
    (c : Char) :
    NoCapital c.toLower := by
  rw [NoCapital, Text.toNat_toLower]
  split <;> omega

theorem toLower_of_noCapital
    {c : Char}
    (h : NoCapital c) :
    c.toLower = c := by
  rw [← Char.toNat_inj, Text.toNat_toLower, if_neg h]

theorem noCapital_ofNat
    {n : Nat}
    (h : 90 < n) :
    NoCapital (Char.ofNat n) := by
  rw [NoCapital, Char.toNat_ofNat]
  split <;> omega

/-- Normalized characters are no capital letters. -/
theorem noCapital_of_mem_normalize
    {c d : Char}
    (h : d ∈ normalize c) :
    NoCapital d := by
  rw [normalize] at h
  split at h
  · rw [List.mem_singleton.mp h]
    exact noCapital_toLower c
  next hascii =>
  split at h
  · rw [List.mem_singleton.mp h]
    decide
  split at h
  · cases h
  split at h
  · rw [List.mem_singleton.mp h]
    exact noCapital_toLower _
  split at h
  · rw [List.mem_singleton.mp h, NoCapital]
    omega
  · rw [List.mem_singleton.mp h]
    refine noCapital_ofNat ?_
    rcases Text.foldCase_cases c with hfold | hfold <;> omega

theorem normalize_eq_self
    {c : Char}
    (hascii : c.toNat < 128)
    (h : NoCapital c) :
    normalize c = [c] := by
  rw [normalize]
  simp only [if_pos hascii, toLower_of_noCapital h]

/-! ### Labels -/

theorem isUnassigned_of_ascii
    {c : Char}
    (h : c.toNat < 128) :
    isUnassigned c = false := by
  simp only [isUnassigned, Bool.or_eq_false_iff, Bool.and_eq_false_iff, decide_eq_false_iff_not]
  omega

theorem isLabelChar_of_punycode
    {c : Char}
    (h : Punycode.IsDigit c) :
    IsLabelChar c := by
  obtain ⟨n, hn, rfl⟩ := h
  have hall : ∀ n < 36, (Punycode.digit n).toNat < 128 ∧ NoCapital (Punycode.digit n) ∧
      Punycode.digit n ≠ '.' ∧ isForbidden (Punycode.digit n) = false := by decide
  obtain ⟨hascii, hcapital, hdot, hallowed⟩ := hall n hn
  exact ⟨hascii, hcapital, hdot, hallowed⟩

/-- A label as it is written, which is read as itself. -/
structure IsLabel (l : List Char) : Prop where
  chars : ∀ c ∈ l, IsLabelChar c
  read : label? l = some l

theorem any_eq_false
    {l : List Char}
    {p : Char → Bool}
    (h : ∀ c ∈ l, p c = false) :
    l.any p = false := by
  rw [List.any_eq_false]
  exact fun c hc hp => absurd ((h c hc).symm.trans hp) Bool.false_ne_true

/-- A label that is carried in ASCII is read as itself. -/
theorem isLabel_encode
    {s : List Char}
    (hchars : ∀ c ∈ s, NoCapital c ∧ c ≠ '.')
    (hallowed : ∀ c ∈ s, ¬ (c.toNat < 128 ∧ isForbidden c = true) ∧ isUnassigned c = false)
    (hbeyond : (s.any fun c => 128 ≤ c.toNat) = true) :
    IsLabel (asciiMark ++ Punycode.encode s) := by
  have hlabel : ∀ c ∈ asciiMark ++ Punycode.encode s, IsLabelChar c := by
    intro c hc
    obtain hc | hc := List.mem_append.mp hc
    · have hmark : ∀ c ∈ asciiMark, c.toNat < 128 ∧ NoCapital c ∧ c ≠ '.' ∧ isForbidden c = false :=
        List.all_iff_forall_prop.mp (by decide)
      obtain ⟨hascii, hcapital, hdot, hallowed⟩ := hmark c hc
      exact ⟨hascii, hcapital, hdot, hallowed⟩
    · obtain ⟨hc, hascii⟩ | rfl | hc := Punycode.mem_encode hc
      · refine ⟨hascii, (hchars c hc).1, (hchars c hc).2, Bool.eq_false_iff.mpr fun hforbidden => ?_⟩
        exact (hallowed c hc).1 ⟨hascii, hforbidden⟩
      · exact ⟨by decide, by decide, by decide, by decide⟩
      · exact isLabelChar_of_punycode hc
  have hfirst : ((asciiMark ++ Punycode.encode s).any fun c =>
      (c.toNat < 128 && isForbidden c) || isUnassigned c) = false :=
    any_eq_false fun c hc => by simp [(hlabel c hc).allowed, isUnassigned_of_ascii (hlabel c hc).ascii]
  have hsecond : ((asciiMark ++ Punycode.encode s).any fun c => 128 ≤ c.toNat) = false :=
    any_eq_false fun c hc => decide_eq_false (Nat.not_le.mpr (hlabel c hc).ascii)
  have hmark : asciiMark.isPrefixOf (asciiMark ++ Punycode.encode s) = true :=
    List.isPrefixOf_iff_prefix.mpr (List.prefix_append ..)
  have hdrop : (asciiMark ++ Punycode.encode s).drop 4 = Punycode.encode s := by
    rw [show 4 = asciiMark.length from by decide, List.drop_left]
  have hassigned : s.any isUnassigned = false := any_eq_false fun c hc => (hallowed c hc).2
  refine ⟨hlabel, ?_⟩
  rw [label?, hfirst, hsecond, if_neg Bool.false_ne_true, if_neg Bool.false_ne_true, if_pos hmark, hdrop,
    Punycode.decode?_encode]
  simp [hbeyond, hassigned]

/-- What a label is read as is a label. -/
theorem isLabel_of_label?
    {s l : List Char}
    (hchars : ∀ c ∈ s, NoCapital c ∧ c ≠ '.')
    (h : label? s = some l) :
    IsLabel l := by
  have hread := h
  rw [label?] at h
  split at h
  · cases h
  next hallowed =>
  simp only [List.any_eq_true, not_exists, not_and, Bool.or_eq_true, Bool.and_eq_true, decide_eq_true_eq,
    not_or, Bool.not_eq_true] at hallowed
  split at h
  · next hbeyond =>
      obtain rfl := Option.some.inj h
      refine isLabel_encode hchars (fun c hc => ⟨fun ⟨hascii, hforbidden⟩ => ?_, (hallowed c hc).2⟩) hbeyond
      rw [(hallowed c hc).1 hascii] at hforbidden
      cases hforbidden
  next hascii =>
  have hlabel : ∀ c ∈ s, IsLabelChar c := by
    intro c hc
    simp only [List.any_eq_true, not_exists, not_and, decide_eq_true_eq, Nat.not_le] at hascii
    exact ⟨hascii c hc, (hchars c hc).1, (hchars c hc).2, (hallowed c hc).1 (hascii c hc)⟩
  have hsame : s = l := by
    split at h
    · split at h
      · split at h
        · exact Option.some.inj h
        · cases h
      · cases h
    · exact Option.some.inj h
  subst hsame
  exact ⟨hlabel, hread⟩

/-! ### Domains -/

/-- A domain as it is written by labels. -/
def IsWritten (text : List Char) : Prop :=
  ∃ labels, labels ≠ [] ∧ (∀ l ∈ labels, IsLabel l) ∧ text = List.intercalate ['.'] labels

theorem isLabel_of_mapM
    {pieces labels : List (List Char)}
    (hpieces : ∀ piece ∈ pieces, ∀ c ∈ piece, NoCapital c ∧ c ≠ '.')
    (h : pieces.mapM label? = some labels) :
    labels.length = pieces.length ∧ ∀ l ∈ labels, IsLabel l := by
  induction pieces generalizing labels with
  | nil =>
      obtain rfl : [] = labels := by simpa using h
      exact ⟨rfl, nofun⟩
  | cons piece pieces ih =>
      obtain ⟨hpiece, hpieces⟩ := List.forall_mem_cons.mp hpieces
      simp only [List.mapM_cons, Option.bind_eq_bind, Option.bind_eq_some_iff, Option.pure_def,
        Option.some.injEq] at h
      obtain ⟨l, hl, labels, hlabels, rfl⟩ := h
      obtain ⟨hlength, hlabel⟩ := ih hpieces hlabels
      exact ⟨congrArg (· + 1) hlength, List.forall_mem_cons.mpr ⟨isLabel_of_label? hpiece hl, hlabel⟩⟩

theorem mapM_labels
    {labels : List (List Char)}
    (h : ∀ l ∈ labels, IsLabel l) :
    labels.mapM label? = some labels := by
  induction labels with
  | nil => rfl
  | cons l labels ih =>
      obtain ⟨hl, hlabels⟩ := List.forall_mem_cons.mp h
      simp [hl.read, ih hlabels]

theorem isWritten_of_toAscii?
    {bytes : List Nat}
    {text : List Char}
    (h : toAscii? bytes = some text) :
    IsWritten text := by
  simp only [toAscii?, Option.bind_eq_bind, Option.bind_eq_some_iff, Option.pure_def, Option.some.injEq] at h
  obtain ⟨s, _, labels, hlabels, rfl⟩ := h
  have hpieces : ∀ piece ∈ Text.splitAll '.' (s.toList.flatMap normalize), ∀ c ∈ piece, NoCapital c ∧ c ≠ '.' := by
    intro piece hpiece c hc
    obtain ⟨d, _, hd⟩ := List.mem_flatMap.mp (Text.mem_of_mem_splitOn hpiece hc)
    exact ⟨noCapital_of_mem_normalize hd, ne_of_mem_of_not_mem hc (Text.not_mem_of_mem_splitOn hpiece)⟩
  obtain ⟨hlength, hlabel⟩ := isLabel_of_mapM hpieces hlabels
  refine ⟨labels, ?_, hlabel, rfl⟩
  rw [Ne, ← List.length_eq_zero_iff, hlength, List.length_eq_zero_iff]
  exact List.splitOn_ne_nil '.' _

/-- The characters of a domain are those of its labels and dots. -/
theorem IsWritten.chars
    {text : List Char}
    (h : IsWritten text)
    {c : Char}
    (hc : c ∈ text) :
    c = '.' ∨ IsLabelChar c := by
  obtain ⟨labels, _, hlabels, rfl⟩ := h
  obtain rfl | ⟨l, hl, hc⟩ := Address.mem_intercalate hc
  · exact .inl rfl
  · exact .inr ((hlabels l hl).chars c hc)

/-- A written domain is read as itself. -/
theorem IsWritten.read
    {text : List Char}
    (h : IsWritten text) :
    toAscii? (Text.toBytes (String.ofList text)) = some text := by
  have hchars : ∀ c ∈ text, c.toNat < 128 ∧ NoCapital c := by
    intro c hc
    obtain rfl | hc := h.chars hc
    · decide
    · exact ⟨hc.ascii, hc.noCapital⟩
  have hnormal : text.flatMap normalize = text := by
    rw [List.flatMap_congr fun c hc => normalize_eq_self (hchars c hc).1 (hchars c hc).2]
    simp
  obtain ⟨labels, hne, hlabels, htext⟩ := h
  have hsplit : Text.splitAll '.' text = labels := by
    rw [htext]
    exact List.splitOn_intercalate '.' (fun l hl hdot => ((hlabels l hl).chars '.' hdot).noDot rfl) hne
  rw [toAscii?, Text.fromUTF8?_toBytes]
  simp only [Option.bind_eq_bind, Option.bind_some, String.toList_ofList, hnormal, hsplit, mapM_labels hlabels]
  exact congrArg some htext.symm

/-! ### Numbers -/

theorem isLabelChar_of_isDigit
    {c : Char}
    (h : c.isDigit = true) :
    IsLabelChar c := by
  rw [Char.isDigit, Bool.and_eq_true, decide_eq_true_iff, decide_eq_true_iff] at h
  have hle : c.toNat ≤ 57 := h.2
  have hall : ∀ n ≤ 57, 48 ≤ n → Char.ofNat n ≠ '.' ∧ isForbidden (Char.ofNat n) = false := by decide
  obtain ⟨hdot, hallowed⟩ := hall c.toNat hle h.1
  rw [Char.ofNat_toNat] at hdot hallowed
  exact ⟨by omega, by rw [NoCapital]; omega, hdot, hallowed⟩

theorem isLabel_of_digits
    {l : List Char}
    (h : ∀ c ∈ l, c.isDigit = true) :
    IsLabel l := by
  have hchars : ∀ c ∈ l, IsLabelChar c := fun c hc => isLabelChar_of_isDigit (h c hc)
  have hfirst : (l.any fun c => (c.toNat < 128 && isForbidden c) || isUnassigned c) = false :=
    any_eq_false fun c hc => by simp [(hchars c hc).allowed, isUnassigned_of_ascii (hchars c hc).ascii]
  have hsecond : (l.any fun c => 128 ≤ c.toNat) = false :=
    any_eq_false fun c hc => decide_eq_false (Nat.not_le.mpr (hchars c hc).ascii)
  have hmark : ¬ asciiMark.isPrefixOf l = true := by
    intro hmark
    obtain ⟨t, ht⟩ := List.isPrefixOf_iff_prefix.mp hmark
    exact absurd (h 'x' (ht ▸ List.mem_cons_self ..)) (by decide)
  refine ⟨hchars, ?_⟩
  rw [label?, hfirst, hsecond, if_neg Bool.false_ne_true, if_neg Bool.false_ne_true, if_neg hmark]

theorem isWritten_of_numbers
    {text : List Char}
    (h : ∀ c ∈ text, c = '.' ∨ c.isDigit = true) :
    IsWritten text := by
  refine ⟨Text.splitAll '.' text, List.splitOn_ne_nil '.' _, fun l hl => isLabel_of_digits fun c hc => ?_,
    (List.intercalate_splitOn '.').symm⟩
  refine (h c (Text.mem_of_mem_splitOn hl hc)).resolve_left ?_
  rintro rfl
  exact Text.not_mem_of_mem_splitOn hl hc

/-- Reading domains by labels keeps the laws. -/
theorem lawful_toAscii? :
    Domains.Lawful toAscii? where
  allowed h c hc := by
    obtain rfl | hchar := (isWritten_of_toAscii? h).chars hc
    · decide
    · exact hchar.allowed
  again h := (isWritten_of_toAscii? h).read
  numbers h := (isWritten_of_numbers h).read

end Domain
end Url
end AccessAudit
