import AccessAudit.Decimal.Grouped
import AccessAudit.Proofs.Decimal.Numerals

/-!
# Grouped numbers are read back

Counted from the right a comma stands before each third digit, so the digits of a number are cut into a first
group of one to three and further groups of exactly three.  A comma is neither a digit nor a sign.  Without its
commas a grouped number is therefore the decimal text of the number, and different numbers have different texts.
-/

namespace AccessAudit
namespace Decimal

/-! ### Removing the commas -/

theorem comma_not_mem_digits
    (n : Nat) :
    ',' ∉ digits n :=
  fun h => absurd (isDigit_of_mem_digits h) (by decide)

theorem hyphen_not_mem_digits
    (n : Nat) :
    '-' ∉ digits n :=
  fun h => absurd (isDigit_of_mem_digits h) (by decide)

theorem ungroup_groupDigits
    {ds : List Char}
    (h : ',' ∉ ds)
    (inside : Bool) :
    ungroup (groupDigits ds inside) = ds := by
  induction ds generalizing inside with
  | nil => rfl
  | cons c rest ih =>
      obtain ⟨hc, hrest⟩ := List.ne_and_not_mem_of_not_mem_cons h
      have hkept : ungroup (c :: groupDigits rest true) = c :: rest := by
        rw [ungroup, List.filter_cons_of_pos (by simpa using Ne.symm hc)]
        exact congrArg (c :: ·) (ih hrest true)
      rw [groupDigits]
      split
      · exact hkept
      · exact hkept

theorem ungroup_grouped
    (n : Int) :
    ungroup (grouped n) = signed n := by
  have hbody := ungroup_groupDigits (comma_not_mem_digits n.natAbs) false
  unfold grouped signed
  split
  · exact congrArg ('-' :: ·) hbody
  · exact hbody

/-- The decimal text of a whole number is the usual one. -/
theorem text_eq_toString
    (n : Int) :
    text n = toString n := by
  cases n with
  | ofNat m => rfl
  | negSucc m =>
      rw [← String.toList_inj]
      simp [text, signed, digits, toString, Int.repr, Nat.repr, Int.negSucc_lt_zero]

theorem signed_injective : Function.Injective signed := by
  intro m n h
  unfold signed at h
  -- a sign cannot stand where the other text has its first digit
  split at h
  · split at h
    · have := digits_injective (List.cons.inj h).2
      omega
    · exact absurd (h ▸ List.mem_cons_self) (hyphen_not_mem_digits n.natAbs)
  · split at h
    · exact absurd (h ▸ List.mem_cons_self) (hyphen_not_mem_digits m.natAbs)
    · have := digits_injective h
      omega

/-! ### The groups -/

/-- Groups of digits: the first of one to three, the others of three. -/
structure AreGroups (first : List Char) (others : List (List Char)) : Prop where
  first_pos : 0 < first.length
  first_le : first.length ≤ 3
  others_eq : ∀ group ∈ others, group.length = 3
  digits : ∀ group ∈ first :: others, ∀ c ∈ group, c.isDigit = true

/-- Before the last of the digits that fill up a first group no comma stands. -/
theorem groupDigits_append
    {before rest : List Char}
    (hbefore : before.length < 3)
    (hrest : rest.length % 3 = 0) :
    groupDigits (before ++ rest) true = before ++ groupDigits rest true := by
  induction before with
  | nil => rfl
  | cons c before ih =>
      rw [List.length_cons] at hbefore
      have hinner : ¬((before ++ rest).length + 1) % 3 = 0 := by
        rw [List.length_append]
        omega
      rw [List.cons_append, groupDigits, if_neg (fun h => hinner h.2), ih (by omega)]
      rfl

/-- A comma stands before each whole group of three. -/
theorem groupDigits_three
    {group rest : List Char}
    (hgroup : group.length = 3)
    (hrest : rest.length % 3 = 0) :
    groupDigits (group ++ rest) true = ',' :: group ++ groupDigits rest true := by
  match group, hgroup with
  | [a, b, c], _ =>
      have hfirst : (([b, c] ++ rest).length + 1) % 3 = 0 := by
        rw [List.length_append, List.length_cons, List.length_singleton]
        omega
      have hpair : [b, c].length < 3 := Nat.lt_succ_self 2
      change groupDigits (a :: ([b, c] ++ rest)) true = _
      rw [groupDigits, if_pos ⟨rfl, hfirst⟩, groupDigits_append hpair hrest]
      rfl

/-- Digits in a number divisible by three behind another digit are cut into groups of three. -/
theorem exists_groups_of_three
    {k : Nat}
    {ds : List Char}
    (h : ds.length = 3 * k) :
    ∃ others : List (List Char),
      (∀ group ∈ others, group.length = 3) ∧ others.flatten = ds ∧
      groupDigits ds true = others.flatMap (',' :: ·) := by
  induction k generalizing ds with
  | zero =>
      obtain rfl := List.eq_nil_of_length_eq_zero h
      exact ⟨[], nofun, rfl, rfl⟩
  | succ k ih =>
      have htake : (ds.take 3).length = 3 := by
        rw [List.length_take]
        omega
      have hdrop : (ds.drop 3).length = 3 * k := by
        rw [List.length_drop]
        omega
      obtain ⟨others, hothers, hflatten, hgrouped⟩ := ih hdrop
      refine ⟨ds.take 3 :: others, List.forall_mem_cons.mpr ⟨htake, hothers⟩, ?_, ?_⟩
      · rw [List.flatten_cons, hflatten, List.take_append_drop]
      · conv_lhs => rw [← List.take_append_drop 3 ds]
        rw [groupDigits_three htake (by omega), hgrouped]
        rfl

/-- The digits of a number in groups. -/
theorem exists_groups
    (n : Nat) :
    ∃ first others, AreGroups first others ∧ first ++ others.flatten = digits n ∧
      groupDigits (digits n) false = first ++ others.flatMap (',' :: ·) := by
  obtain ⟨c, ds, hcons⟩ := List.exists_cons_of_ne_nil (isNumeral_digits n).ne_nil
  have htake : (ds.take (ds.length % 3)).length = ds.length % 3 := by
    rw [List.length_take]
    omega
  have hdrop : (ds.drop (ds.length % 3)).length = 3 * (ds.length / 3) := by
    rw [List.length_drop]
    omega
  obtain ⟨others, hothers, hflatten, hgrouped⟩ := exists_groups_of_three hdrop
  have hall : (c :: ds.take (ds.length % 3)) ++ others.flatten = digits n := by
    rw [hflatten, List.cons_append, List.take_append_drop, hcons]
  refine ⟨c :: ds.take (ds.length % 3), others, ⟨?_, ?_, hothers, ?_⟩, hall, ?_⟩
  · exact Nat.succ_pos _
  · rw [List.length_cons]
    omega
  · intro group hgroup d hd
    refine isDigit_of_mem_digits (n := n) ?_
    rw [← hall, ← List.flatten_cons]
    exact List.mem_flatten_of_mem hgroup hd
  · rw [hcons, groupDigits, if_neg (by simp)]
    conv_lhs => rw [← List.take_append_drop (ds.length % 3) ds]
    rw [groupDigits_append (by omega) (by omega), hgrouped]
    rfl

namespace AreGroups

variable {first : List Char} {others : List (List Char)}

theorem first_ne_nil
    (h : AreGroups first others) :
    first ≠ [] :=
  List.ne_nil_of_length_pos h.first_pos

theorem eq_comma_or_isDigit_of_mem
    (h : AreGroups first others)
    {c : Char}
    (hc : c ∈ first ++ others.flatMap (',' :: ·)) :
    c = ',' ∨ c.isDigit = true := by
  rcases List.mem_append.mp hc with hfirst | hothers
  · exact .inr (h.digits first List.mem_cons_self c hfirst)
  · obtain ⟨group, hgroup, hmem⟩ := List.mem_flatMap.mp hothers
    exact (List.mem_cons.mp hmem).imp_right
      (h.digits group (List.mem_cons_of_mem _ hgroup) c)

theorem hyphen_not_mem
    (h : AreGroups first others) :
    '-' ∉ first ++ others.flatMap (',' :: ·) := by
  intro hc
  rcases h.eq_comma_or_isDigit_of_mem hc with heq | hdigit
  · exact absurd heq (by decide)
  · exact absurd hdigit (by decide)

theorem head?_ne_comma
    (h : AreGroups first others) :
    (first ++ others.flatMap (',' :: ·)).head? ≠ some ',' := by
  rw [List.head?_append_of_ne_nil _ h.first_ne_nil]
  intro hhead
  exact absurd (h.digits first List.mem_cons_self ',' (List.mem_of_head? hhead)) (by decide)

/-- What stands last is the last digit of the last group. -/
theorem getLast?_ne_comma
    (h : AreGroups first others) :
    (first ++ others.flatMap (',' :: ·)).getLast? ≠ some ',' := by
  have hlast : ∃ group ∈ first :: others,
      (first ++ others.flatMap (',' :: ·)).getLast? = group.getLast? := by
    rcases List.eq_nil_or_concat others with rfl | ⟨before, group, rfl⟩
    · exact ⟨first, List.mem_cons_self, by rw [List.flatMap_nil, List.append_nil]⟩
    · have hne : group ≠ [] := by
        refine List.ne_nil_of_length_pos ?_
        rw [h.others_eq group (by simp)]
        exact Nat.succ_pos 2
      refine ⟨group, by simp, ?_⟩
      rw [List.concat_eq_append, List.flatMap_append, List.flatMap_singleton, ← List.append_assoc,
        ← List.singleton_append, ← List.append_assoc, List.getLast?_append_of_ne_nil _ hne]
  obtain ⟨group, hgroup, heq⟩ := hlast
  rw [heq]
  intro hcomma
  exact absurd (h.digits group hgroup ',' (List.mem_of_getLast? hcomma)) (by decide)

end AreGroups

/-- A grouped number: a sign where it is negative, and its digits in groups. -/
theorem exists_groups_grouped
    (n : Int) :
    ∃ first others, AreGroups first others ∧ first ++ others.flatten = digits n.natAbs ∧
      grouped n = (if n < 0 then ['-'] else []) ++ (first ++ others.flatMap (',' :: ·)) := by
  obtain ⟨first, others, hgroups, hdigits, hbody⟩ := exists_groups n.natAbs
  refine ⟨first, others, hgroups, hdigits, ?_⟩
  unfold grouped
  rw [hbody]
  split
  · rfl
  · rfl

/-- A comma and the sign do not stand side by side. -/
theorem not_infix_grouped
    (n : Int) :
    ¬['-', ','] <:+: grouped n ∧ ¬[',', '-'] <:+: grouped n := by
  obtain ⟨first, others, hgroups, -, hgrouped⟩ := exists_groups_grouped n
  have hhyphen := hgroups.hyphen_not_mem
  have hhead := hgroups.head?_ne_comma
  rw [hgrouped]
  generalize first ++ others.flatMap (',' :: ·) = body at hhyphen hhead
  -- the digits and commas hold no sign, so only the sign in front of them is in question
  have hbody : ∀ {pair : List Char}, '-' ∈ pair → ¬pair <:+: body :=
    fun hpair hpart => hhyphen (hpart.subset hpair)
  split
  · rw [List.singleton_append, List.infix_cons_iff, List.infix_cons_iff]
    refine ⟨?_, ?_⟩
    · rintro (hfront | hrest)
      · obtain ⟨rest, hrest⟩ := hfront
        obtain rfl := (List.cons.inj hrest).2
        exact hhead rfl
      · exact hbody List.mem_cons_self hrest
    · rintro (hfront | hrest)
      · exact absurd (List.cons_prefix_cons.mp hfront).1 (by decide)
      · exact hbody (by decide) hrest
  · exact ⟨hbody List.mem_cons_self, hbody (by decide)⟩

theorem groupedText_injective : Function.Injective groupedText := by
  intro m n h
  have hgrouped : grouped m = grouped n := String.ofList_injective h
  have hsigned : signed m = signed n := by
    rw [← ungroup_grouped, hgrouped, ungroup_grouped]
  exact signed_injective hsigned

/-- Without its commas a grouped number is the usual decimal text of the number.  The commas cut its digits into a
first group of one to three and further groups of three; none stands first, last or next to the sign.  So
different numbers have different texts. -/
theorem grouped_numbers_read_back :
    (∀ n : Int,
      String.ofList (ungroup (groupedText n).toList) = toString n ∧
      (∃ first others, AreGroups first others ∧ first ++ others.flatten = digits n.natAbs ∧
        (groupedText n).toList =
          (if n < 0 then ['-'] else []) ++ (first ++ others.flatMap (',' :: ·))) ∧
      (groupedText n).toList.head? ≠ some ',' ∧
      (groupedText n).toList.getLast? ≠ some ',' ∧
      ¬['-', ','] <:+: (groupedText n).toList ∧
      ¬[',', '-'] <:+: (groupedText n).toList) ∧
    Function.Injective groupedText := by
  refine ⟨fun n => ?_, groupedText_injective⟩
  obtain ⟨first, others, hgroups, hdigits, hgrouped⟩ := exists_groups_grouped n
  have htext : (groupedText n).toList = grouped n := String.toList_ofList
  rw [htext]
  refine ⟨?_, ⟨first, others, hgroups, hdigits, hgrouped⟩, ?_, ?_, not_infix_grouped n⟩
  · rw [ungroup_grouped]
    exact text_eq_toString n
  · rw [hgrouped]
    split
    · exact nofun
    · exact hgroups.head?_ne_comma
  · have hne : first ++ others.flatMap (',' :: ·) ≠ [] :=
      List.append_ne_nil_of_left_ne_nil hgroups.first_ne_nil _
    rw [hgrouped, List.getLast?_append_of_ne_nil _ hne]
    exact hgroups.getLast?_ne_comma

end Decimal
end AccessAudit
