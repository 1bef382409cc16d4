import AccessAudit.Proofs.Registry.Numbers

/-!
# Documents as they are written

One document may be written in many ways: blanks may stand around every part, and strings and numbers may be
spelled differently.  `Denotes` tells which texts are writings of a document, and a text is read as a document
exactly if it is a writing of it.
-/

namespace AccessAudit
namespace Registry
namespace Json

/-- The name of a member as it is written, with blanks around it. -/
def IsName (name : Option String) (s : List Char) : Prop :=
  ∃ before string after, IsGap before ∧ IsString name string ∧ IsGap after ∧ s = before ++ string ++ after

/-- A member of an object, and its name and value as they are written. -/
structure WrittenMember where
  name : Option String
  nameText : List Char
  value : Json
  valueText : List Char

/-- The member itself. -/
def WrittenMember.entry (m : WrittenMember) : Option String × Json :=
  (m.name, m.value)

/-- The member as it is written. -/
def WrittenMember.text (m : WrittenMember) : List Char :=
  m.nameText ++ ':' :: m.valueText

/-- The texts that are writings of a document. -/
inductive Denotes : Json → List Char → Prop
  | null : Denotes null ['n', 'u', 'l', 'l']
  | true : Denotes (boolean true) ['t', 'r', 'u', 'e']
  | false : Denotes (boolean false) ['f', 'a', 'l', 's', 'e']
  | number {j : Json} {s : List Char} : IsNumber j s → Denotes j s
  | string {text : Option String} {s : List Char} : IsString text s → Denotes (string text) s
  | emptyArray {gap : List Char} : IsGap gap → Denotes (array []) ('[' :: (gap ++ [']']))
  | array {items : List (Json × List Char)} :
      items ≠ [] → (∀ item ∈ items, Denotes item.1 item.2) →
        Denotes (array (items.map Prod.fst)) ('[' :: ([','].intercalate (items.map Prod.snd) ++ [']']))
  | emptyObject {gap : List Char} : IsGap gap → Denotes (object []) ('{' :: (gap ++ ['}']))
  | object {members : List WrittenMember} :
      members ≠ [] → (∀ m ∈ members, IsName m.name m.nameText) →
        (∀ m ∈ members, Denotes m.value m.valueText) →
          Denotes (object (members.map WrittenMember.entry))
            ('{' :: ([','].intercalate (members.map WrittenMember.text) ++ ['}']))
  | padded {before after s : List Char} {j : Json} :
      IsGap before → IsGap after → Denotes j s → Denotes j (before ++ s ++ after)

theorem Denotes.after_gap
    {gap s : List Char}
    {j : Json}
    (hgap : IsGap gap)
    (h : Denotes j s) :
    Denotes j (gap ++ s) := by
  simpa using padded hgap isGap_nil h

theorem Denotes.before_gap
    {gap s : List Char}
    {j : Json}
    (hgap : IsGap gap)
    (h : Denotes j s) :
    Denotes j (s ++ gap) := by
  simpa using padded isGap_nil hgap h

/-! ### The first character -/

/-- What comes first in a writing, after its blanks, ends no list and no object. -/
theorem Denotes.exists_skip_eq
    {j : Json}
    {s : List Char}
    (h : Denotes j s) :
    ∃ c t, skip s = c :: t ∧ c ≠ ']' := by
  induction h with
  | null | true | false | emptyArray _ | array _ _ _ | emptyObject _ | object _ _ _ _ =>
      exact ⟨_, _, skip_of_not_blank rfl _, by decide⟩
  | number h =>
      obtain ⟨c, t, rfl, hc⟩ := h.exists_cons
      exact ⟨c, t, skip_of_not_blank (isBlank_of_starts_number hc) t, ne_of_starts_number hc rfl⟩
  | string h =>
      obtain ⟨t, rfl⟩ := h.exists_cons
      exact ⟨'"', t, skip_of_not_blank rfl t, by decide⟩
  | padded hbefore _ _ ih =>
      obtain ⟨c, t, hskip, hc⟩ := ih
      rw [List.append_assoc, skip_gap_append hbefore]
      exact ⟨c, _, skip_append hskip _, hc⟩

theorem IsName.exists_skip_eq
    {name : Option String}
    {s : List Char}
    (h : IsName name s) :
    ∃ t, skip s = '"' :: t := by
  obtain ⟨before, string, after, hbefore, ⟨units, spelling, _, rfl, _⟩, _, rfl⟩ := h
  exact ⟨_, by rw [List.append_assoc, skip_gap_append hbefore]; exact skip_of_not_blank rfl _⟩

/-! ### Steps of the readers -/

/-- The readers pass over blanks at the start. -/
theorem valueUpTo_skip
    (fuel : Nat)
    (s : List Char) :
    valueUpTo fuel (skip s) = valueUpTo fuel s := by
  cases fuel with
  | zero => rfl
  | succ fuel => rw [valueUpTo, valueUpTo, skip_skip]

theorem itemsUpTo_skip
    (fuel : Nat)
    (s : List Char) :
    itemsUpTo fuel (skip s) = itemsUpTo fuel s := by
  cases fuel with
  | zero => rfl
  | succ fuel => rw [itemsUpTo, itemsUpTo, valueUpTo_skip]

theorem membersUpTo_skip
    (fuel : Nat)
    (s : List Char) :
    membersUpTo fuel (skip s) = membersUpTo fuel s := by
  cases fuel with
  | zero => rfl
  | succ fuel => rw [membersUpTo, membersUpTo, skip_skip]

theorem valueUpTo_number
    (fuel : Nat)
    {c : Char}
    (hc : c.isDigit = true ∨ c = '-')
    (s : List Char) :
    valueUpTo (fuel + 1) (c :: s) = numeric (c :: s) := by
  rw [valueUpTo, skip_of_not_blank (isBlank_of_starts_number hc)]
  split
  all_goals first
    | next heq => exact absurd (List.cons.inj heq).1 (ne_of_starts_number hc rfl)
    | rfl

theorem valueUpTo_quote
    (fuel : Nat)
    (s : List Char) :
    valueUpTo (fuel + 1) ('"' :: s) = (quoted s).map fun read => (string read.1, read.2) := by
  rw [valueUpTo, skip_of_not_blank rfl]
  cases h : quoted s <;> simp [h]

theorem valueUpTo_emptyArray
    (fuel : Nat)
    {gap : List Char}
    (hgap : IsGap gap)
    (s : List Char) :
    valueUpTo (fuel + 1) ('[' :: (gap ++ ']' :: s)) = some (array [], s) := by
  rw [valueUpTo, skip_of_not_blank rfl]
  simp only [skip_gap_append hgap, skip_of_not_blank (show isBlank ']' = false from rfl)]

theorem valueUpTo_emptyObject
    (fuel : Nat)
    {gap : List Char}
    (hgap : IsGap gap)
    (s : List Char) :
    valueUpTo (fuel + 1) ('{' :: (gap ++ '}' :: s)) = some (object [], s) := by
  rw [valueUpTo, skip_of_not_blank rfl]
  simp only [skip_gap_append hgap, skip_of_not_blank (show isBlank '}' = false from rfl)]

theorem valueUpTo_array
    (fuel : Nat)
    {s t : List Char}
    {c : Char}
    (hskip : skip s = c :: t)
    (hc : c ≠ ']') :
    valueUpTo (fuel + 1) ('[' :: s) = (itemsUpTo fuel s).map fun read => (array read.1, read.2) := by
  rw [valueUpTo, skip_of_not_blank rfl]
  simp only
  split
  · next heq => exact absurd (List.cons.inj (hskip.symm.trans heq)).1 hc
  · rw [itemsUpTo_skip]
    cases itemsUpTo fuel s <;> simp

theorem valueUpTo_object
    (fuel : Nat)
    {s t : List Char}
    {c : Char}
    (hskip : skip s = c :: t)
    (hc : c ≠ '}') :
    valueUpTo (fuel + 1) ('{' :: s) = (membersUpTo fuel s).map fun read => (object read.1, read.2) := by
  rw [valueUpTo, skip_of_not_blank rfl]
  simp only
  split
  · next heq => exact absurd (List.cons.inj (hskip.symm.trans heq)).1 hc
  · rw [membersUpTo_skip]
    cases membersUpTo fuel s <;> simp

theorem itemsUpTo_last
    {fuel : Nat}
    {s rest t : List Char}
    {item : Json}
    (hread : valueUpTo fuel s = some (item, rest))
    (hskip : skip rest = ']' :: t) :
    itemsUpTo (fuel + 1) s = some ([item], t) := by
  simp [itemsUpTo, hread, hskip]

theorem itemsUpTo_more
    {fuel : Nat}
    {s rest t : List Char}
    {item : Json}
    (hread : valueUpTo fuel s = some (item, rest))
    (hskip : skip rest = ',' :: t) :
    itemsUpTo (fuel + 1) s = (itemsUpTo fuel t).map fun read => (item :: read.1, read.2) := by
  cases h : itemsUpTo fuel t <;> simp [itemsUpTo, hread, hskip, h]

/-- After its name, a member is read by its value. -/
theorem membersUpTo_name
    (fuel : Nat)
    {name : Option String}
    {nameText : List Char}
    (hname : IsName name nameText)
    (s : List Char) :
    membersUpTo (fuel + 1) (nameText ++ ':' :: s) = (do
      let (value, rest) ← valueUpTo fuel s
      match skip rest with
      | '}' :: rest => return ([(name, value)], rest)
      | ',' :: rest =>
          let (members, rest) ← membersUpTo fuel rest
          return ((name, value) :: members, rest)
      | _ => none) := by
  obtain ⟨before, string, after, hbefore, hstring, hafter, rfl⟩ := hname
  obtain ⟨units, spelling, hspells, rfl, htext⟩ := hstring
  have hquoted : quoted (spelling ++ '"' :: (after ++ ':' :: s)) = some (name, after ++ ':' :: s) :=
    quoted_eq_some_iff.mpr ⟨'"' :: (spelling ++ ['"']), by simp, units, spelling, hspells, rfl, htext⟩
  have hcolon : skip (after ++ ':' :: s) = ':' :: s := by
    rw [skip_gap_append hafter, skip_of_not_blank rfl]
  simp only [List.append_assoc, List.cons_append, List.nil_append]
  rw [membersUpTo, skip_gap_append hbefore, skip_of_not_blank rfl]
  simp only [hquoted, Option.bind_eq_bind, Option.bind_some]
  rewrite [hcolon]
  rfl

/-! ### Every writing is read -/

/-- A text is read as a document where nothing follows that goes on with it. -/
def IsRead (j : Json) (s : List Char) : Prop :=
  ∀ fuel rest, 2 * s.length ≤ fuel → Stops rest →
    ∃ rest', valueUpTo fuel (s ++ rest) = some (j, rest') ∧ skip rest' = skip rest

theorem itemsUpTo_of_isRead
    {items : List (Json × List Char)}
    (hne : items ≠ [])
    (hitems : ∀ item ∈ items, IsRead item.1 item.2)
    {fuel : Nat}
    (hfuel : 2 * ([','].intercalate (items.map Prod.snd)).length + 1 ≤ fuel)
    (rest : List Char) :
    itemsUpTo fuel ([','].intercalate (items.map Prod.snd) ++ ']' :: rest) =
      some (items.map Prod.fst, rest) := by
  obtain ⟨fuel, rfl⟩ := Nat.exists_eq_add_of_le' (Nat.le_of_add_left_le hfuel)
  induction items generalizing fuel with
  | nil => exact absurd rfl hne
  | cons item items ih =>
      have hitem := hitems item (List.mem_cons_self ..)
      cases items with
      | nil =>
          simp only [List.map_cons, List.map_nil, List.intercalate_singleton] at hfuel ⊢
          obtain ⟨rest', hread, hskip⟩ :=
            hitem fuel (']' :: rest) (by omega) (stops_cons (.inr (.inr (.inl rfl))) rest)
          exact itemsUpTo_last hread (hskip.trans (skip_of_not_blank rfl rest))
      | cons next items =>
          simp only [List.map_cons, List.intercalate_cons_cons, List.length_append, List.length_cons,
            List.append_assoc, List.cons_append, List.nil_append] at hfuel ih ⊢
          obtain ⟨rest', hread, hskip⟩ :=
            hitem fuel _ (by omega) (stops_cons (.inr (.inl rfl)) _)
          obtain ⟨fuel, rfl⟩ := Nat.exists_eq_add_one_of_ne_zero (show fuel ≠ 0 by omega)
          rw [itemsUpTo_more hread (hskip.trans (skip_of_not_blank rfl _)),
            ih (by simp) (fun i hi => hitems i (List.mem_cons_of_mem _ hi)) fuel (by omega)]
          rfl

theorem membersUpTo_of_isRead
    {members : List WrittenMember}
    (hne : members ≠ [])
    (hnames : ∀ m ∈ members, IsName m.name m.nameText)
    (hvalues : ∀ m ∈ members, IsRead m.value m.valueText)
    {fuel : Nat}
    (hfuel : 2 * ([','].intercalate (members.map WrittenMember.text)).length + 1 ≤ fuel)
    (rest : List Char) :
    membersUpTo fuel ([','].intercalate (members.map WrittenMember.text) ++ '}' :: rest) =
      some (members.map WrittenMember.entry, rest) := by
  obtain ⟨fuel, rfl⟩ := Nat.exists_eq_add_of_le' (Nat.le_of_add_left_le hfuel)
  induction members generalizing fuel with
  | nil => exact absurd rfl hne
  | cons m members ih =>
      have hname := hnames m (List.mem_cons_self ..)
      have hvalue := hvalues m (List.mem_cons_self ..)
      cases members with
      | nil =>
          simp only [List.map_cons, List.map_nil, List.intercalate_singleton, WrittenMember.text,
            List.length_append, List.length_cons, List.append_assoc, List.cons_append] at hfuel ⊢
          obtain ⟨rest', hread, hskip⟩ :=
            hvalue fuel ('}' :: rest) (by omega) (stops_cons (.inr (.inr (.inr rfl))) rest)
          rw [skip_of_not_blank rfl] at hskip
          rw [membersUpTo_name fuel hname]
          simp [hread, hskip, WrittenMember.entry]
      | cons next members =>
          simp only [List.map_cons, List.intercalate_cons_cons, WrittenMember.text, List.length_append,
            List.length_cons, List.append_assoc, List.cons_append, List.nil_append] at hfuel ih ⊢
          obtain ⟨rest', hread, hskip⟩ :=
            hvalue fuel _ (by omega) (stops_cons (.inr (.inl rfl)) _)
          rw [skip_of_not_blank rfl] at hskip
          obtain ⟨fuel, rfl⟩ := Nat.exists_eq_add_one_of_ne_zero (show fuel ≠ 0 by omega)
          have hmore := ih (by simp) (fun n hn => hnames n (List.mem_cons_of_mem _ hn))
            (fun n hn => hvalues n (List.mem_cons_of_mem _ hn)) fuel (by omega)
          rw [membersUpTo_name (fuel + 1) hname, hread]
          simp [hskip, hmore, WrittenMember.entry]

/-- What the first part of a list starts with, the list starts with. -/
theorem exists_skip_intercalate
    {parts : List (List Char)}
    (hne : parts ≠ [])
    {P : Char → Prop}
    (hparts : ∀ s ∈ parts, ∃ c t, skip s = c :: t ∧ P c)
    (rest : List Char) :
    ∃ c t, skip ([','].intercalate parts ++ rest) = c :: t ∧ P c := by
  obtain ⟨s, parts, rfl⟩ := List.exists_cons_of_ne_nil hne
  obtain ⟨c, t, hskip, hc⟩ := hparts s (List.mem_cons_self ..)
  cases parts with
  | nil => exact ⟨c, _, by rw [List.intercalate_singleton]; exact skip_append hskip rest, hc⟩
  | cons next parts =>
      rw [List.intercalate_cons_cons, List.append_assoc, List.append_assoc]
      exact ⟨c, _, skip_append hskip _, hc⟩

theorem Denotes.isRead
    {j : Json}
    {s : List Char}
    (h : Denotes j s) :
    IsRead j s := by
  induction h with
  | null | true | false =>
      intro fuel rest hfuel _
      obtain ⟨fuel, rfl⟩ := Nat.exists_eq_add_of_le' (Nat.le_trans (by decide) hfuel : 1 ≤ fuel)
      exact ⟨rest, by simp [valueUpTo, skip_of_not_blank, isBlank, afterWord], rfl⟩
  | number h =>
      intro fuel rest hfuel hstops
      obtain ⟨c, t, rfl, hc⟩ := h.exists_cons
      rw [List.length_cons] at hfuel
      obtain ⟨fuel, rfl⟩ := Nat.exists_eq_add_one_of_ne_zero (show fuel ≠ 0 by omega)
      refine ⟨rest, ?_, rfl⟩
      rw [List.cons_append, valueUpTo_number fuel hc]
      exact numeric_append h hstops
  | string h =>
      intro fuel rest hfuel _
      obtain ⟨t, rfl⟩ := h.exists_cons
      rw [List.length_cons] at hfuel
      obtain ⟨fuel, rfl⟩ := Nat.exists_eq_add_one_of_ne_zero (show fuel ≠ 0 by omega)
      refine ⟨rest, ?_, rfl⟩
      rw [List.cons_append, valueUpTo_quote, quoted_eq_some_iff.mpr ⟨_, List.cons_append.symm, h⟩]
      rfl
  | @emptyArray gap hgap =>
      intro fuel rest hfuel _
      rw [List.length_cons] at hfuel
      obtain ⟨fuel, rfl⟩ := Nat.exists_eq_add_one_of_ne_zero (show fuel ≠ 0 by omega)
      exact ⟨rest, by simpa using valueUpTo_emptyArray fuel hgap rest, rfl⟩
  | @array items hne hitems ih =>
      intro fuel rest hfuel _
      simp only [List.length_cons, List.length_append] at hfuel
      obtain ⟨fuel, rfl⟩ := Nat.exists_eq_add_one_of_ne_zero (show fuel ≠ 0 by omega)
      have hparts : ∀ s ∈ items.map Prod.snd, ∃ c t, skip s = c :: t ∧ c ≠ ']' := by
        intro s hs
        obtain ⟨item, hitem, rfl⟩ := List.mem_map.mp hs
        exact (hitems item hitem).exists_skip_eq
      obtain ⟨c, t, hskip, hc⟩ := exists_skip_intercalate (by simpa using hne) hparts (']' :: rest)
      refine ⟨rest, ?_, rfl⟩
      rw [List.cons_append, List.append_assoc, List.singleton_append, valueUpTo_array fuel hskip hc,
        itemsUpTo_of_isRead hne ih (by omega) rest]
      rfl
  | @emptyObject gap hgap =>
      intro fuel rest hfuel _
      rw [List.length_cons] at hfuel
      obtain ⟨fuel, rfl⟩ := Nat.exists_eq_add_one_of_ne_zero (show fuel ≠ 0 by omega)
      exact ⟨rest, by simpa using valueUpTo_emptyObject fuel hgap rest, rfl⟩
  | @object members hne hnames _ ih =>
      intro fuel rest hfuel _
      simp only [List.length_cons, List.length_append] at hfuel
      obtain ⟨fuel, rfl⟩ := Nat.exists_eq_add_one_of_ne_zero (show fuel ≠ 0 by omega)
      have hparts : ∀ s ∈ members.map WrittenMember.text, ∃ c t, skip s = c :: t ∧ c ≠ '}' := by
        intro s hs
        obtain ⟨m, hm, rfl⟩ := List.mem_map.mp hs
        obtain ⟨t, hskip⟩ := (hnames m hm).exists_skip_eq
        exact ⟨'"', _, skip_append hskip _, by decide⟩
      obtain ⟨c, t, hskip, hc⟩ := exists_skip_intercalate (by simpa using hne) hparts ('}' :: rest)
      refine ⟨rest, ?_, rfl⟩
      rw [List.cons_append, List.append_assoc, List.singleton_append, valueUpTo_object fuel hskip hc,
        membersUpTo_of_isRead hne hnames ih (by omega) rest]
      rfl
  | @padded before after s j hbefore hafter _ ih =>
      intro fuel rest hfuel hstops
      simp only [List.length_append] at hfuel
      obtain ⟨rest', hread, hskip⟩ := ih fuel (after ++ rest) (by omega) (hstops.gap_append hafter)
      refine ⟨rest', ?_, hskip.trans (skip_gap_append hafter rest)⟩
      rw [← valueUpTo_skip, List.append_assoc, List.append_assoc, skip_gap_append hbefore, valueUpTo_skip]
      exact hread

/-! ### What is read is written -/

/-- What the readers find with a given fuel is written at the start of the text. -/
structure FindsWritings (fuel : Nat) : Prop where
  value : ∀ {j s rest}, valueUpTo fuel s = some (j, rest) → ∃ t, s = t ++ rest ∧ Denotes j t
  items : ∀ {items s rest}, itemsUpTo fuel s = some (items, rest) →
    ∃ parts : List (Json × List Char), parts ≠ [] ∧ (∀ part ∈ parts, Denotes part.1 part.2) ∧
      items = parts.map Prod.fst ∧ s = [','].intercalate (parts.map Prod.snd) ++ ']' :: rest
  members : ∀ {members s rest}, membersUpTo fuel s = some (members, rest) →
    ∃ parts : List WrittenMember, parts ≠ [] ∧ (∀ m ∈ parts, IsName m.name m.nameText) ∧
      (∀ m ∈ parts, Denotes m.value m.valueText) ∧ members = parts.map WrittenMember.entry ∧
        s = [','].intercalate (parts.map WrittenMember.text) ++ '}' :: rest

theorem eq_append_of_afterWord
    {word s rest : List Char}
    (h : afterWord word s = some rest) :
    s = word ++ rest := by
  rw [afterWord] at h
  split at h
  · next hpre =>
      obtain ⟨tail, rfl⟩ := List.isPrefixOf_iff_prefix.mp hpre
      simpa using h
  · cases h

/-- What is skipped before a character is a gap. -/
theorem exists_gap_of_skip
    {s t : List Char}
    {c : Char}
    (h : skip s = c :: t) :
    ∃ gap, IsGap gap ∧ s = gap ++ c :: t := by
  obtain ⟨gap, hgap, hs⟩ := exists_gap s
  exact ⟨gap, hgap, h ▸ hs⟩

theorem FindsWritings.value_succ
    {fuel : Nat}
    (h : FindsWritings fuel)
    {j : Json}
    {s rest : List Char}
    (hread : valueUpTo (fuel + 1) s = some (j, rest)) :
    ∃ t, s = t ++ rest ∧ Denotes j t := by
  obtain ⟨gap, hgap, hs⟩ := exists_gap s
  suffices ∃ t, skip s = t ++ rest ∧ Denotes j t by
    obtain ⟨t, ht, hdenotes⟩ := this
    exact ⟨gap ++ t, by rw [List.append_assoc, ← ht, ← hs], hdenotes.after_gap hgap⟩
  rw [valueUpTo] at hread
  split at hread
  · next u hu =>
      rw [hu]
      split at hread
      · next v hv =>
          simp only [Option.some.injEq, Prod.mk.injEq] at hread
          obtain ⟨rfl, rfl⟩ := hread
          obtain ⟨inner, hinner, rfl⟩ := exists_gap_of_skip hv
          exact ⟨'{' :: (inner ++ ['}']), by simp, .emptyObject hinner⟩
      · rw [membersUpTo_skip] at hread
        simp only [Option.bind_eq_bind, Option.bind_eq_some_iff, Option.pure_def, Option.some.injEq,
          Prod.mk.injEq, Prod.exists] at hread
        obtain ⟨members, rest, hmembers, rfl, rfl⟩ := hread
        obtain ⟨parts, hne, hnames, hvalues, rfl, rfl⟩ := h.members hmembers
        exact ⟨_, by simp, .object hne hnames hvalues⟩
  · next u hu =>
      rw [hu]
      split at hread
      · next v hv =>
          simp only [Option.some.injEq, Prod.mk.injEq] at hread
          obtain ⟨rfl, rfl⟩ := hread
          obtain ⟨inner, hinner, rfl⟩ := exists_gap_of_skip hv
          exact ⟨'[' :: (inner ++ [']']), by simp, .emptyArray hinner⟩
      · rw [itemsUpTo_skip] at hread
        simp only [Option.bind_eq_bind, Option.bind_eq_some_iff, Option.pure_def, Option.some.injEq,
          Prod.mk.injEq, Prod.exists] at hread
        obtain ⟨items, rest, hitems, rfl, rfl⟩ := hread
        obtain ⟨parts, hne, hparts, rfl, rfl⟩ := h.items hitems
        exact ⟨_, by simp, .array hne hparts⟩
  · next u hu =>
      rw [hu]
      simp only [Option.bind_eq_bind, Option.bind_eq_some_iff, Option.pure_def, Option.some.injEq,
        Prod.mk.injEq, Prod.exists] at hread
      obtain ⟨text, rest, hquoted, rfl, rfl⟩ := hread
      obtain ⟨string, hstring, htext⟩ := quoted_eq_some_iff.mp hquoted
      exact ⟨string, hstring, .string htext⟩
  · next u hu =>
      simp only [Option.map_eq_some_iff, Prod.mk.injEq] at hread
      obtain ⟨rest, hword, rfl, rfl⟩ := hread
      exact ⟨_, by rw [hu, eq_append_of_afterWord hword]; rfl, .null⟩
  · next u hu =>
      simp only [Option.map_eq_some_iff, Prod.mk.injEq] at hread
      obtain ⟨rest, hword, rfl, rfl⟩ := hread
      exact ⟨_, by rw [hu, eq_append_of_afterWord hword]; rfl, .true⟩
  · next u hu =>
      simp only [Option.map_eq_some_iff, Prod.mk.injEq] at hread
      obtain ⟨rest, hword, rfl, rfl⟩ := hread
      exact ⟨_, by rw [hu, eq_append_of_afterWord hword]; rfl, .false⟩
  · obtain ⟨t, ht, hnumber⟩ := isNumber_of_numeric hread
    exact ⟨t, ht, .number hnumber⟩

theorem FindsWritings.items_succ
    {fuel : Nat}
    (h : FindsWritings fuel)
    {items : List Json}
    {s rest : List Char}
    (hread : itemsUpTo (fuel + 1) s = some (items, rest)) :
    ∃ parts : List (Json × List Char), parts ≠ [] ∧ (∀ part ∈ parts, Denotes part.1 part.2) ∧
      items = parts.map Prod.fst ∧ s = [','].intercalate (parts.map Prod.snd) ++ ']' :: rest := by
  simp only [itemsUpTo, Option.bind_eq_bind, Option.bind_eq_some_iff, Prod.exists] at hread
  obtain ⟨item, u, hvalue, hread⟩ := hread
  obtain ⟨t, rfl, hitem⟩ := h.value hvalue
  split at hread
  · next v hv =>
      simp only [Option.pure_def, Option.some.injEq, Prod.mk.injEq] at hread
      obtain ⟨rfl, rfl⟩ := hread
      obtain ⟨gap, hgap, rfl⟩ := exists_gap_of_skip hv
      exact ⟨[(item, t ++ gap)], by simp, by simpa using hitem.before_gap hgap, rfl, by simp⟩
  · next v hv =>
      simp only [Option.bind_eq_some_iff, Option.pure_def, Option.some.injEq, Prod.mk.injEq,
        Prod.exists] at hread
      obtain ⟨more, rest', hmore, rfl, rfl⟩ := hread
      obtain ⟨gap, hgap, rfl⟩ := exists_gap_of_skip hv
      obtain ⟨parts, hne, hparts, rfl, rfl⟩ := h.items hmore
      obtain ⟨part, parts, rfl⟩ := List.exists_cons_of_ne_nil hne
      refine ⟨(item, t ++ gap) :: part :: parts, by simp, ?_, rfl, by simp⟩
      exact List.forall_mem_cons.mpr ⟨hitem.before_gap hgap, hparts⟩
  · cases hread

theorem FindsWritings.members_succ
    {fuel : Nat}
    (h : FindsWritings fuel)
    {members : List (Option String × Json)}
    {s rest : List Char}
    (hread : membersUpTo (fuel + 1) s = some (members, rest)) :
    ∃ parts : List WrittenMember, parts ≠ [] ∧ (∀ m ∈ parts, IsName m.name m.nameText) ∧
      (∀ m ∈ parts, Denotes m.value m.valueText) ∧ members = parts.map WrittenMember.entry ∧
        s = [','].intercalate (parts.map WrittenMember.text) ++ '}' :: rest := by
  rw [membersUpTo] at hread
  split at hread
  case h_2 => cases hread
  next u hu =>
  obtain ⟨before, hbefore, rfl⟩ := exists_gap_of_skip hu
  simp only [Option.bind_eq_bind, Option.bind_eq_some_iff, Prod.exists] at hread
  obtain ⟨name, v, hquoted, hread⟩ := hread
  obtain ⟨string, hstring, htext⟩ := quoted_eq_some_iff.mp hquoted
  split at hread
  case h_2 => cases hread
  next w hw =>
  obtain ⟨after, hafter, rfl⟩ := exists_gap_of_skip hw
  have hname : IsName name (before ++ string ++ after) :=
    ⟨before, string, after, hbefore, htext, hafter, rfl⟩
  simp only [Option.bind_eq_some_iff, Prod.exists] at hread
  obtain ⟨value, x, hvalue, hread⟩ := hread
  obtain ⟨t, rfl, hdenotes⟩ := h.value hvalue
  split at hread
  · next y hy =>
      simp only [Option.pure_def, Option.some.injEq, Prod.mk.injEq] at hread
      obtain ⟨rfl, rfl⟩ := hread
      obtain ⟨gap, hgap, rfl⟩ := exists_gap_of_skip hy
      refine ⟨[⟨name, before ++ string ++ after, value, t ++ gap⟩], by simp, by simpa using hname,
        by simpa using hdenotes.before_gap hgap, rfl, ?_⟩
      rw [hstring]
      simp [WrittenMember.text]
  · next y hy =>
      simp only [Option.bind_eq_some_iff, Option.pure_def, Option.some.injEq, Prod.mk.injEq,
        Prod.exists] at hread
      obtain ⟨more, rest', hmore, rfl, rfl⟩ := hread
      obtain ⟨gap, hgap, rfl⟩ := exists_gap_of_skip hy
      obtain ⟨parts, hne, hnames, hvalues, rfl, rfl⟩ := h.members hmore
      obtain ⟨part, parts, rfl⟩ := List.exists_cons_of_ne_nil hne
      refine ⟨⟨name, before ++ string ++ after, value, t ++ gap⟩ :: part :: parts, by simp,
        List.forall_mem_cons.mpr ⟨hname, hnames⟩,
        List.forall_mem_cons.mpr ⟨hdenotes.before_gap hgap, hvalues⟩, rfl, ?_⟩
      rw [hstring]
      simp [WrittenMember.text]
  · cases hread

theorem findsWritings
    (fuel : Nat) :
    FindsWritings fuel := by
  induction fuel with
  | zero => exact ⟨nofun, nofun, nofun⟩
  | succ fuel ih => exact ⟨ih.value_succ, ih.items_succ, ih.members_succ⟩

/-- A text is read as a document exactly if it is a writing of it. -/
theorem ofText?_eq_some_iff
    {text : String}
    {j : Json} :
    ofText? text = some j ↔ Denotes j text.toList := by
  constructor
  · intro h
    simp only [ofText?, Option.bind_eq_bind, Option.bind_eq_some_iff, Prod.exists] at h
    obtain ⟨value, rest, hread, h⟩ := h
    split at h
    · next hskip =>
        obtain rfl := Option.some.inj h
        obtain ⟨t, ht, hdenotes⟩ := (findsWritings _).value hread
        obtain ⟨gap, hgap, hrest⟩ := exists_gap rest
        rw [hskip, List.append_nil] at hrest
        rw [ht, hrest]
        exact hdenotes.before_gap hgap
    · cases h
  · intro h
    obtain ⟨rest, hread, hskip⟩ := h.isRead (2 * text.toList.length + 2) [] (by omega) stops_nil
    rw [List.append_nil] at hread
    simp only [ofText?, hread, Option.bind_eq_bind, Option.bind_some]
    exact if_pos hskip

end Json
end Registry
end AccessAudit
