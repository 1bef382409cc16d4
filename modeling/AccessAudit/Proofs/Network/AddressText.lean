import AccessAudit.Network.Address
import AccessAudit.Proofs.Decimal.Numerals
import Mathlib.Data.List.Basic

/-!
# Addresses are read back from their text

The canonical text of an address is cut where it was joined: at the dots of four octets, at the single
colons between groups, and at the one double colon that stands for the run that was left out.  What has to
be seen is that no other place looks like one of these.  Digits are neither dots nor colons, no group is
empty, and so the first double colon of a text is the one that was put there; the groups on its two sides
are eight less the run.
-/

namespace AccessAudit
namespace Address

/-! ### Digits in any base -/

theorem exists_digitChar_of_mem
    {base n : Nat}
    {c : Char}
    (hbase : 1 < base)
    (h : c ∈ Nat.toDigits base n) :
    ∃ d, d < base ∧ c = Nat.digitChar d := by
  induction n using Nat.strongRecOn with
  | ind n ih =>
      by_cases hn : n < base
      · rw [Nat.toDigits_of_lt_base hn, List.mem_singleton] at h
        exact ⟨n, hn, h⟩
      · have hle : base ≤ n := Nat.not_lt.mp hn
        rw [Nat.toDigits_of_base_le hbase hle] at h
        rcases List.mem_append.mp h with h | h
        · exact ih (n / base) (Nat.div_lt_self (by omega) hbase) h
        · exact ⟨n % base, Nat.mod_lt n (by omega), List.mem_singleton.mp h⟩

/-- A character that addresses are written with. -/
def IsAddressChar (c : Char) : Prop :=
  c = ':' ∨ c = '.' ∨ ∃ d, d < 16 ∧ c = Nat.digitChar d

theorem digitChar_facts :
    ∀ d < 16,
      Nat.digitChar d ≠ ':' ∧ Nat.digitChar d ≠ '.' ∧ Nat.digitChar d ≠ '/' ∧
        Text.isBlank (Nat.digitChar d) = false ∧ hexValue? (Nat.digitChar d) = some d := by
  decide

theorem IsAddressChar.ne_slash
    {c : Char}
    (h : IsAddressChar c) :
    c ≠ '/' := by
  rcases h with rfl | rfl | ⟨d, hd, rfl⟩
  · decide
  · decide
  · exact (digitChar_facts d hd).2.2.1

theorem IsAddressChar.not_blank
    {c : Char}
    (h : IsAddressChar c) :
    Text.isBlank c = false := by
  rcases h with rfl | rfl | ⟨d, hd, rfl⟩
  · decide
  · decide
  · exact (digitChar_facts d hd).2.2.2.1

theorem digitChar_of_mem_digits
    {n : Nat}
    {c : Char}
    (h : c ∈ Decimal.digits n) :
    ∃ d, d < 16 ∧ c = Nat.digitChar d := by
  obtain ⟨d, hd, hc⟩ := exists_digitChar_of_mem (by decide) h
  exact ⟨d, by omega, hc⟩

theorem digitChar_of_mem_hexText
    {n : Nat}
    {c : Char}
    (h : c ∈ hexText n) :
    ∃ d, d < 16 ∧ c = Nat.digitChar d :=
  exists_digitChar_of_mem (by decide) h

/-! ### Joined pieces -/

theorem mem_intercalate
    {sep c : Char}
    {pieces : List (List Char)}
    (h : c ∈ List.intercalate [sep] pieces) :
    c = sep ∨ ∃ piece ∈ pieces, c ∈ piece := by
  induction pieces with
  | nil => simp at h
  | cons first rest ih =>
      cases rest with
      | nil => exact Or.inr ⟨first, List.mem_singleton_self first, by simpa using h⟩
      | cons second rest =>
          rw [List.intercalate_cons_cons, List.append_assoc, List.mem_append, List.mem_append,
            List.mem_singleton] at h
          rcases h with h | h | h
          · exact Or.inr ⟨first, List.mem_cons_self, h⟩
          · exact Or.inl h
          · rcases ih h with h | ⟨piece, hpiece, hc⟩
            · exact Or.inl h
            · exact Or.inr ⟨piece, List.mem_cons_of_mem first hpiece, hc⟩

/-- The first piece, and then every other one after a separator. -/
theorem intercalate_cons_eq
    (sep : Char)
    (first : List Char)
    (rest : List (List Char)) :
    List.intercalate [sep] (first :: rest) = first ++ rest.flatMap (sep :: ·) := by
  induction rest generalizing first with
  | nil => simp
  | cons second rest ih =>
      rw [List.intercalate_cons_cons, ih second, List.append_assoc]
      rfl

/-! ### Dotted form -/

theorem octet?_digits :
    ∀ n < 256, octet? (Decimal.digits n) = some n := by
  decide +kernel

theorem dotted_eq_intercalate
    (n : Nat) :
    dotted n =
      List.intercalate ['.']
        ([n / 0x1000000, n / 0x10000 % 256, n / 0x100 % 256, n % 256].map Decimal.digits) := by
  simp [dotted, List.intercalate_cons_cons]

theorem dotted?_dotted
    {n : Nat}
    (h : n < 2 ^ 32) :
    dotted? (dotted n) = some n := by
  have hpieces : Text.splitAll '.' (dotted n) =
      [n / 0x1000000, n / 0x10000 % 256, n / 0x100 % 256, n % 256].map Decimal.digits := by
    rw [dotted_eq_intercalate]
    refine List.splitOn_intercalate '.' ?_ (by simp)
    intro piece hpiece hdot
    obtain ⟨m, -, rfl⟩ := List.mem_map.mp hpiece
    obtain ⟨d, hd, hc⟩ := digitChar_of_mem_digits hdot
    exact (digitChar_facts d hd).2.1 hc.symm
  rw [dotted?, hpieces]
  simp only [List.map_cons, List.map_nil]
  rw [octet?_digits _ (by omega), octet?_digits _ (by omega), octet?_digits _ (by omega),
    octet?_digits _ (by omega)]
  simp only [Option.some.injEq]
  omega

theorem isAddressChar_of_mem_dotted
    {n : Nat}
    {c : Char}
    (h : c ∈ dotted n) :
    IsAddressChar c := by
  rw [dotted_eq_intercalate] at h
  rcases mem_intercalate h with rfl | ⟨piece, hpiece, hc⟩
  · exact Or.inr (Or.inl rfl)
  · obtain ⟨m, -, rfl⟩ := List.mem_map.mp hpiece
    exact Or.inr (Or.inr (digitChar_of_mem_digits hc))

theorem colon_not_mem_dotted
    (n : Nat) :
    ':' ∉ dotted n := by
  intro h
  rw [dotted_eq_intercalate] at h
  rcases mem_intercalate h with h | ⟨piece, hpiece, hc⟩
  · cases h
  · obtain ⟨m, -, rfl⟩ := List.mem_map.mp hpiece
    obtain ⟨d, hd, hcolon⟩ := digitChar_of_mem_digits hc
    exact (digitChar_facts d hd).1 hcolon.symm

theorem isDigit_of_octet?
    {s : List Char}
    {n : Nat}
    (h : octet? s = some n) :
    ∀ c ∈ s, c.isDigit = true := by
  unfold octet? at h
  split at h
  · split at h
    · next hread => exact Decimal.isDigit_of_readDigits hread
    · cases h
  · cases h

/-- A text with a colon has no dotted form. -/
theorem dotted?_of_colon
    {s : List Char}
    (h : ':' ∈ s) :
    dotted? s = none := by
  obtain ⟨piece, hpiece, hcolon⟩ : ∃ piece ∈ Text.splitAll '.' s, ':' ∈ piece := by
    have hjoined : List.intercalate ['.'] (s.splitOn '.') = s := List.intercalate_splitOn '.'
    rw [← hjoined] at h
    exact (mem_intercalate h).resolve_left (by decide)
  have hnone : octet? piece = none := by
    rw [Option.eq_none_iff_forall_ne_some]
    intro n hn
    exact absurd (isDigit_of_octet? hn ':' hcolon) (by decide)
  have hmem : none ∈ (Text.splitAll '.' s).map octet? := by
    rw [← hnone]
    exact List.mem_map_of_mem hpiece
  unfold dotted?
  split
  · next heq =>
      rw [heq] at hmem
      simp at hmem
  · rfl

/-! ### Groups -/

theorem hex?_concat
    (s : List Char)
    (c : Char) :
    hex? (s ++ [c]) = (hex? s).bind fun n => (hexValue? c).map fun d => n * 16 + d := by
  simp only [hex?, List.foldl_append, List.foldl_cons, List.foldl_nil]
  cases s.foldl (fun n c => do return (← n) * 16 + (← hexValue? c)) (some 0) with
  | none => rfl
  | some n =>
      cases hexValue? c with
      | none => rfl
      | some d => rfl

theorem hex?_hexText
    (n : Nat) :
    hex? (hexText n) = some n := by
  induction n using Nat.strongRecOn with
  | ind n ih =>
      have hdigit : hexValue? (Nat.digitChar (n % 16)) = some (n % 16) :=
        (digitChar_facts _ (Nat.mod_lt n (by decide))).2.2.2.2
      by_cases hn : n < 16
      · rw [Nat.mod_eq_of_lt hn] at hdigit
        have hsplit : hexText n = [] ++ [Nat.digitChar n] := Nat.toDigits_of_lt_base hn
        rw [hsplit, hex?_concat, hdigit]
        simp [hex?]
      · have hsplit : hexText n = hexText (n / 16) ++ [Nat.digitChar (n % 16)] :=
          Nat.toDigits_of_base_le (by decide) (Nat.not_lt.mp hn)
        rw [hsplit, hex?_concat, hdigit, ih (n / 16) (Nat.div_lt_self (by omega) (by decide))]
        simp only [Option.bind_some, Option.map_some, Option.some.injEq]
        omega

theorem hexText_ne_nil
    (n : Nat) :
    hexText n ≠ [] :=
  Nat.toDigits_ne_nil

theorem colon_not_mem_hexText
    (n : Nat) :
    ':' ∉ hexText n := by
  intro h
  obtain ⟨d, hd, hc⟩ := digitChar_of_mem_hexText h
  exact (digitChar_facts d hd).1 hc.symm

theorem group?_hexText
    {n : Nat}
    (h : n < 0x10000) :
    group? (hexText n) = some n := by
  have hlength : (hexText n).length ≤ 4 :=
    (Nat.length_toDigits_le_iff (by decide) (by decide)).mpr h
  rw [group?, if_pos ⟨hexText_ne_nil n, hlength⟩, hex?_hexText]

theorem groupsOfPieces?_hexTexts
    (dottedEnd : Bool)
    {gs : List Nat}
    (h : ∀ g ∈ gs, g < 0x10000) :
    groupsOfPieces? dottedEnd (gs.map hexText) = some gs := by
  induction gs with
  | nil => rfl
  | cons g rest ih =>
      obtain ⟨hg, hrest⟩ := List.forall_mem_cons.mp h
      cases rest with
      | nil => simp only [List.map_cons, List.map_nil, groupsOfPieces?, group?_hexText hg]
      | cons next rest =>
          have hlater := ih hrest
          simp only [List.map_cons] at hlater ⊢
          rw [groupsOfPieces?, group?_hexText hg, hlater]
          · rfl
          · exact List.cons_ne_nil _ _

theorem groups?_joinGroups
    (dottedEnd : Bool)
    {gs : List Nat}
    (h : ∀ g ∈ gs, g < 0x10000) :
    groups? dottedEnd (joinGroups gs) = some gs := by
  cases gs with
  | nil => rfl
  | cons g rest =>
      have hne : joinGroups (g :: rest) ≠ [] := by
        rw [joinGroups, List.map_cons, intercalate_cons_eq]
        exact List.append_ne_nil_of_left_ne_nil (hexText_ne_nil g) _
      have hpieces : Text.splitAll ':' (joinGroups (g :: rest)) = (g :: rest).map hexText := by
        refine List.splitOn_intercalate ':' ?_ (by simp)
        intro piece hpiece
        obtain ⟨m, -, rfl⟩ := List.mem_map.mp hpiece
        exact colon_not_mem_hexText m
      rw [groups?, if_neg hne, hpieces, groupsOfPieces?_hexTexts dottedEnd h]

/-! ### The double colon -/

theorem splitGap_cons
    {c : Char}
    (hc : c ≠ ':')
    (rest : List Char) :
    splitGap (c :: rest) = (splitGap rest).map fun cut => (c :: cut.1, cut.2) := by
  rw [splitGap]
  rintro later rfl
  exact absurd rfl hc

/-- Text without colons belongs to what stands before the gap. -/
theorem splitGap_append
    {w : List Char}
    (hw : ':' ∉ w)
    (rest : List Char) :
    splitGap (w ++ rest) = (splitGap rest).map fun cut => (w ++ cut.1, cut.2) := by
  induction w with
  | nil => simp
  | cons c w ih =>
      obtain ⟨hc, hw⟩ := List.ne_and_not_mem_of_not_mem_cons hw
      rw [List.cons_append, splitGap_cons hc.symm, ih hw, Option.map_map]
      rfl

/-- So does a colon before a group, because groups are not empty. -/
theorem splitGap_colon_hexText
    (g : Nat)
    (rest : List Char) :
    splitGap (':' :: hexText g ++ rest) =
      (splitGap rest).map fun cut => (':' :: hexText g ++ cut.1, cut.2) := by
  obtain ⟨c, w, hcw⟩ := List.exists_cons_of_ne_nil (hexText_ne_nil g)
  have hw := colon_not_mem_hexText g
  have hfirst : splitGap (':' :: hexText g ++ rest) =
      (splitGap (hexText g ++ rest)).map fun cut => (':' :: cut.1, cut.2) := by
    have hc : c ≠ ':' := by
      rintro rfl
      exact hw (hcw ▸ List.mem_cons_self)
    rw [hcw, List.cons_append, List.cons_append, splitGap]
    rintro later - heq
    exact hc (List.cons.inj heq).1
  rw [hfirst, splitGap_append hw, Option.map_map]
  rfl

/-- The groups before a gap are no part of it. -/
theorem splitGap_joinGroups
    (gs : List Nat)
    (rest : List Char) :
    splitGap (joinGroups gs ++ rest) =
      (splitGap rest).map fun cut => (joinGroups gs ++ cut.1, cut.2) := by
  have hlater : ∀ later : List Nat,
      splitGap ((later.map hexText).flatMap (':' :: ·) ++ rest) =
        (splitGap rest).map fun cut => ((later.map hexText).flatMap (':' :: ·) ++ cut.1, cut.2) := by
    intro later
    induction later with
    | nil => simp
    | cons g later ih =>
        rw [List.map_cons, List.flatMap_cons, List.append_assoc, splitGap_colon_hexText, ih,
          Option.map_map]
        simp only [Function.comp_def, List.append_assoc]
  cases gs with
  | nil => simp [joinGroups]
  | cons g later =>
      rw [joinGroups, List.map_cons, intercalate_cons_eq, List.append_assoc,
        splitGap_append (colon_not_mem_hexText g), hlater, Option.map_map]
      simp only [Function.comp_def, List.append_assoc]

/-! ### The run that is left out -/

/-- The groups before the longest run, the run of zeros, and the groups after it. -/
theorem exists_longestRun
    (start : Nat)
    (gs : List Nat) :
    ∃ front back,
      gs = front ++ List.replicate (longestRun start gs).2 0 ++ back ∧
      (longestRun start gs).1 = start + front.length := by
  induction gs generalizing start with
  | nil => exact ⟨[], [], rfl, rfl⟩
  | cons g rest ih =>
      rw [longestRun]
      split
      · refine ⟨[], (g :: rest).dropWhile (· = 0), ?_, rfl⟩
        have hzeros : (g :: rest).takeWhile (· = 0) = List.replicate (zeroRun (g :: rest)) 0 :=
          List.eq_replicate_of_mem fun x hx => by simpa using List.mem_takeWhile_imp hx
        rw [List.nil_append, ← hzeros, List.takeWhile_append_dropWhile]
      · obtain ⟨front, back, hgs, hstart⟩ := ih (start + 1)
        refine ⟨g :: front, back, ?_, ?_⟩
        · rw [List.cons_append, List.cons_append, ← hgs]
        · rw [hstart, List.length_cons]
          omega

theorem length_groupsOf
    (n : Nat) :
    (groupsOf n).length = 8 := by
  simp [groupsOf]

theorem lt_of_mem_groupsOf
    {n g : Nat}
    (h : g ∈ groupsOf n) :
    g < 0x10000 := by
  obtain ⟨i, -, rfl⟩ := List.mem_map.mp h
  exact Nat.mod_lt _ (by decide)

theorem ofGroups_groupsOf
    {n : Nat}
    (h : n < 2 ^ 128) :
    ofGroups (groupsOf n) = n := by
  have hgroups : groupsOf n =
      [n / 0x10000 ^ 7 % 0x10000, n / 0x10000 ^ 6 % 0x10000, n / 0x10000 ^ 5 % 0x10000,
        n / 0x10000 ^ 4 % 0x10000, n / 0x10000 ^ 3 % 0x10000, n / 0x10000 ^ 2 % 0x10000,
        n / 0x10000 ^ 1 % 0x10000, n / 0x10000 ^ 0 % 0x10000] := rfl
  rw [hgroups]
  simp only [ofGroups, List.foldl_cons, List.foldl_nil]
  omega

/-! ### The canonical text -/

theorem grouped?_compressed
    {n : Nat}
    (h : n < 2 ^ 128) :
    grouped? (compressed n) = some n := by
  have hsmall : ∀ g ∈ groupsOf n, g < 0x10000 := fun g hg => lt_of_mem_groupsOf hg
  obtain ⟨front, back, hgroups, hstart⟩ := exists_longestRun 0 (groupsOf n)
  rw [Nat.zero_add] at hstart
  unfold compressed
  dsimp only
  split
  · next hcount =>
      generalize (longestRun 0 (groupsOf n)).2 = count at hgroups hcount
      have hfront : (groupsOf n).take (longestRun 0 (groupsOf n)).1 = front := by
        rw [hstart, hgroups, List.append_assoc, List.take_left]
      have hback : (groupsOf n).drop ((longestRun 0 (groupsOf n)).1 + count) = back := by
        have hlength : (front ++ List.replicate count 0).length = front.length + count := by simp
        rw [hstart, hgroups, ← hlength, List.drop_left]
      have hlength : front.length + count + back.length = 8 := by
        have := length_groupsOf n
        rw [hgroups, List.length_append, List.length_append, List.length_replicate] at this
        exact this
      have hsmallFront : ∀ g ∈ front, g < 0x10000 := fun g hg =>
        hsmall g (by rw [hgroups]; simp [hg])
      have hsmallBack : ∀ g ∈ back, g < 0x10000 := fun g hg =>
        hsmall g (by rw [hgroups]; simp [hg])
      have hcut : splitGap (joinGroups front ++ [':', ':'] ++ joinGroups back) =
          some (joinGroups front, joinGroups back) := by
        rw [List.append_assoc, splitGap_joinGroups]
        simp [splitGap]
      have hmissing : 8 - (front.length + back.length) = count := by omega
      have hle : front.length + back.length ≤ 7 := by omega
      rw [hfront, hback, grouped?, hcut]
      simp only [groups?_joinGroups false hsmallFront, groups?_joinGroups true hsmallBack,
        Option.bind_eq_bind, Option.bind_some, hmissing, if_pos hle]
      rw [← hgroups, ofGroups_groupsOf h]
  · have hcut : splitGap (joinGroups (groupsOf n)) = none := by
      rw [← List.append_nil (joinGroups (groupsOf n)), splitGap_joinGroups]
      rfl
    rw [grouped?, hcut]
    simp only [groups?_joinGroups true hsmall, Option.bind_eq_bind, Option.bind_some,
      length_groupsOf, if_true, ofGroups_groupsOf h]

/-- A number whose last half is in dotted form, after five groups of zeros and one of ones. -/
theorem grouped?_mapped
    {m : Nat}
    (h : m < 2 ^ 32) :
    grouped? ("::ffff:".toList ++ dotted m) = some (0xFFFF00000000 + m) := by
  have hcut : splitGap ("::ffff:".toList ++ dotted m) = some ([], "ffff:".toList ++ dotted m) := rfl
  have hpieces : Text.splitAll ':' ("ffff:".toList ++ dotted m) = ["ffff".toList, dotted m] := by
    have hfirst : ':' ∉ "ffff".toList := by decide
    have hsplit : "ffff:".toList ++ dotted m = "ffff".toList ++ ':' :: dotted m := rfl
    rw [hsplit, Text.splitAll, List.splitOn_append_cons_self_of_not_mem hfirst,
      List.splitOn_eq_singleton (colon_not_mem_dotted m)]
  have hnoGroup : group? (dotted m) = none := by
    have hpos : ∀ k, 0 < (Decimal.digits k).length := fun k => Nat.length_toDigits_pos
    have hlong : 4 < (dotted m).length := by
      have h₁ := hpos (m / 0x1000000)
      have h₂ := hpos (m / 0x10000 % 256)
      simp only [dotted, List.length_append, List.length_cons]
      omega
    rw [group?, if_neg]
    rintro ⟨-, hle⟩
    omega
  have hfirst : group? "ffff".toList = some 0xFFFF := by decide
  have hgroups : groups? true ("ffff:".toList ++ dotted m) =
      some [0xFFFF, m / 0x10000, m % 0x10000] := by
    have hne : "ffff:".toList ++ dotted m ≠ [] := List.append_ne_nil_of_left_ne_nil (by decide) _
    rw [groups?, if_neg hne, hpieces, groupsOfPieces?, hfirst]
    · simp only [groupsOfPieces?, hnoGroup, dotted?_dotted h, if_true, Option.map_some]
      rfl
    · exact List.cons_ne_nil _ _
  have hvalue : ofGroups ([] ++ List.replicate 5 0 ++ [0xFFFF, m / 0x10000, m % 0x10000]) =
      0xFFFF00000000 + m := by
    simp only [ofGroups, List.replicate, List.nil_append, List.cons_append, List.foldl_cons,
      List.foldl_nil]
    omega
  rw [grouped?, hcut]
  dsimp only
  rw [hgroups, ← hvalue]
  rfl

theorem grouped?_groupedText
    {n : Nat}
    (h : n < 2 ^ 128) :
    grouped? (groupedText n) = some n := by
  unfold groupedText
  split
  · next hmapped =>
      have hlast : n % 0x100000000 < 2 ^ 32 := Nat.mod_lt n (by decide)
      rw [grouped?_mapped hlast, Option.some.injEq]
      omega
  · exact grouped?_compressed h

/-! ### Characters of the canonical text -/

theorem isAddressChar_of_mem_joinGroups
    {gs : List Nat}
    {c : Char}
    (h : c ∈ joinGroups gs) :
    IsAddressChar c := by
  rcases mem_intercalate h with rfl | ⟨piece, hpiece, hc⟩
  · exact Or.inl rfl
  · obtain ⟨g, -, rfl⟩ := List.mem_map.mp hpiece
    exact Or.inr (Or.inr (digitChar_of_mem_hexText hc))

theorem isAddressChar_of_mem_compressed
    {n : Nat}
    {c : Char}
    (h : c ∈ compressed n) :
    IsAddressChar c := by
  unfold compressed at h
  dsimp only at h
  split at h
  · rcases List.mem_append.mp h with h | h
    · rcases List.mem_append.mp h with h | h
      · exact isAddressChar_of_mem_joinGroups h
      · exact Or.inl (by simpa using h)
    · exact isAddressChar_of_mem_joinGroups h
  · exact isAddressChar_of_mem_joinGroups h

theorem isAddressChar_of_mem_groupedText
    {n : Nat}
    {c : Char}
    (h : c ∈ groupedText n) :
    IsAddressChar c := by
  unfold groupedText at h
  split at h
  · rcases List.mem_append.mp h with h | h
    · have hmapped : ∀ c ∈ "::ffff:".toList, c = ':' ∨ c = Nat.digitChar 15 := by simp [Nat.digitChar]
      exact (hmapped c h).imp_right fun hc => Or.inr ⟨15, by decide, hc⟩
    · exact isAddressChar_of_mem_dotted h
  · exact isAddressChar_of_mem_compressed h

theorem isAddressChar_of_mem_chars
    {a : Address}
    {c : Char}
    (h : c ∈ a.chars) :
    IsAddressChar c := by
  cases a with
  | v4 bits => exact isAddressChar_of_mem_dotted h
  | v6 bits => exact isAddressChar_of_mem_groupedText h

/-- Eight groups cannot be written without a colon. -/
theorem colon_mem_groupedText
    (n : Nat) :
    ':' ∈ groupedText n := by
  unfold groupedText
  split
  · exact List.mem_append_left _ (by decide)
  · unfold compressed
    dsimp only
    split
    · exact List.mem_append_left _ (List.mem_append_right _ List.mem_cons_self)
    · obtain ⟨g, g', rest, hgroups⟩ : ∃ g g' rest, groupsOf n = g :: g' :: rest := ⟨_, _, _, rfl⟩
      rw [hgroups, joinGroups, List.map_cons, List.map_cons, List.intercalate_cons_cons]
      simp

/-- The canonical text of an address denotes that address. -/
theorem ofText?_chars
    (a : Address) :
    ofText? a.chars = some a := by
  cases a with
  | v4 bits =>
      rw [ofText?, chars, dotted?_dotted bits.isLt]
      simp
  | v6 bits =>
      rw [ofText?, chars, dotted?_of_colon (colon_mem_groupedText bits.toNat),
        grouped?_groupedText bits.isLt]
      simp

theorem chars_injective :
    Function.Injective chars := by
  intro a b h
  have hread := b.ofText?_chars
  rw [← h, a.ofText?_chars] at hread
  exact Option.some.inj hread

end Address
end AccessAudit
