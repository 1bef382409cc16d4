import AccessAudit.Proofs.Url.Escape
import AccessAudit.Url

/-!
# Paths are read back

The segments of a path that has been read hold no slashes, have been escaped and are no dots, so the text of
the path is read as the same path.
-/

namespace AccessAudit
namespace Url
namespace Path

/-! ### Dots -/

/-- The escape of a character, which is no dot, does not read as the escape of a dot. -/
theorem exists_escapeChar_eq
    {c : Char}
    (h : Part.path.escapes c = true) :
    ∃ d e rest, escapeChar .path c = '%' :: d :: e :: rest ∧ ¬ (d = '2' ∧ (e = 'e' ∨ e = 'E')) := by
  obtain ⟨b, bytes, hbytes⟩ := List.exists_cons_of_ne_nil (Text.toBytes_singleton_ne_nil c)
  have hb : b ∈ Text.toBytes (String.singleton c) := by
    rw [hbytes]
    exact List.mem_cons_self ..
  have hne : b ≠ 46 := by
    rintro rfl
    by_cases hc : c.toNat < 128
    · rw [Text.toBytes_ascii hc] at hb
      obtain rfl : c = '.' := Char.toNat_inj.mp (List.mem_singleton.mp hb).symm
      revert h
      decide
    · exact absurd (Text.le_of_mem_toBytes (Nat.not_lt.mp hc) hb) (by decide)
  refine ⟨_, _, bytes.flatMap escapeByte, by rw [escapeChar, if_pos h, hbytes]; rfl, ?_⟩
  have htwo : ∀ n < 16, (Nat.digitChar n).toUpper = '2' → n = 2 := by decide
  have hletter : ∀ n < 16, (Nat.digitChar n).toUpper = 'e' ∨ (Nat.digitChar n).toUpper = 'E' → n = 14 := by
    decide
  rintro ⟨hd, he⟩
  have hlt := Text.lt_of_mem_toBytes hb
  have hhigh := htwo (b / 16) (by omega) hd
  have hlow := hletter (b % 16) (by omega) he
  omega

theorem escape_cons_of_not
    {c : Char}
    (h : Part.path.escapes c = false)
    (s : List Char) :
    escape .path (c :: s) = c :: escape .path s := by
  rw [escape, List.flatMap_cons, escapeChar, h]
  rfl

theorem escape_cons_of_escapes
    {c : Char}
    (h : Part.path.escapes c = true)
    (s : List Char) :
    ∃ d e rest, escape .path (c :: s) = '%' :: d :: e :: rest ∧ ¬ (d = '2' ∧ (e = 'e' ∨ e = 'E')) := by
  obtain ⟨d, e, rest, hc, hdots⟩ := exists_escapeChar_eq h
  exact ⟨d, e, rest ++ escape .path s, by rw [escape, List.flatMap_cons, hc]; rfl, hdots⟩

theorem unescapeDots_of_ne
    {c : Char}
    (hpercent : c ≠ '%')
    (hdot : c ≠ '.')
    (s : List Char) :
    unescapeDots (c :: s) = c :: s := by
  rw [unescapeDots.eq_3]
  · exact fun _ _ h => hpercent (List.cons.inj h).1
  · exact fun _ h => hdot (List.cons.inj h).1

theorem unescapeDots_percent
    {s : List Char}
    (h : ∀ c rest, s = '2' :: c :: rest → ¬ (c = 'e' ∨ c = 'E')) :
    unescapeDots ('%' :: s) = '%' :: s := by
  match s with
  | [] => rfl
  | [d] => rw [unescapeDots.eq_3] <;> simp
  | d :: e :: rest =>
      by_cases hd : d = '2'
      · subst hd
        rw [unescapeDots, if_neg (h e rest rfl)]
      · rw [unescapeDots.eq_3]
        · exact fun _ _ hsame => hd (List.cons.inj (List.cons.inj hsame).2).1
        · exact fun _ hsame => absurd (List.cons.inj hsame).1 (by decide)

/-- Where nothing is escaped, the dots are already seen. -/
theorem unescapeDots_eq_self
    {s : List Char}
    (h : '%' ∉ s) :
    unescapeDots s = s := by
  induction s using unescapeDots.induct with
  | case1 c rest hc ih => exact absurd List.mem_cons_self h
  | case2 c rest hc => exact absurd List.mem_cons_self h
  | case3 rest ih => rw [unescapeDots, ih fun hmem => h (List.mem_cons_of_mem _ hmem)]
  | case4 s hpercent hdot => exact unescapeDots.eq_3 s hpercent hdot

/-- What an escaped text starts with is what the text starts with, or the escape of a character. -/
theorem unescapeDots_escape_of_escapes
    {c : Char}
    (h : Part.path.escapes c = true)
    (s : List Char) :
    unescapeDots (escape .path (c :: s)) = escape .path (c :: s) := by
  obtain ⟨d, e, rest, heq, hdots⟩ := escape_cons_of_escapes h s
  rw [heq]
  refine unescapeDots_percent fun c t hsame he => ?_
  obtain ⟨rfl, hrest⟩ := List.cons.inj hsame
  obtain ⟨rfl, -⟩ := List.cons.inj hrest
  exact hdots ⟨rfl, he⟩

/-- Where an escaped text starts with a character that is not escaped, so does the text. -/
theorem eq_cons_of_escape_eq_cons
    {s t : List Char}
    {c : Char}
    (hc : c ≠ '%')
    (h : escape .path s = c :: t) :
    ∃ rest, s = c :: rest ∧ t = escape .path rest := by
  match s with
  | d :: rest =>
      cases hd : Part.path.escapes d with
      | true =>
          obtain ⟨_, _, _, heq, _⟩ := escape_cons_of_escapes hd rest
          rw [heq] at h
          exact absurd (List.cons.inj h).1.symm hc
      | false =>
          rw [escape_cons_of_not hd] at h
          obtain ⟨rfl, rfl⟩ := List.cons.inj h
          exact ⟨rest, rfl, rfl⟩

/-- Dots are seen before escaping as they are after. -/
theorem unescapeDots_escape
    (s : List Char) :
    unescapeDots (escape .path s) = escape .path (unescapeDots s) := by
  induction s using unescapeDots.induct with
  | case1 c rest hc ih =>
      have hplain : Part.path.escapes c = false := by rcases hc with rfl | rfl <;> decide
      rw [escape_cons_of_not (by decide), escape_cons_of_not (by decide), escape_cons_of_not hplain,
        unescapeDots, if_pos hc, ih, unescapeDots, if_pos hc, escape_cons_of_not (by decide)]
  | case2 c rest hc =>
      rw [unescapeDots.eq_1 c rest, if_neg hc, escape_cons_of_not (by decide)]
      refine unescapeDots_percent fun d t hsame => ?_
      obtain ⟨_, hrest, ht⟩ := eq_cons_of_escape_eq_cons (by decide) hsame
      obtain ⟨-, rfl⟩ := List.cons.inj hrest
      rintro hd
      obtain ⟨_, hcons, -⟩ := eq_cons_of_escape_eq_cons (by rcases hd with rfl | rfl <;> decide) ht.symm
      exact hc ((List.cons.inj hcons).1 ▸ hd)
  | case3 rest ih =>
      rw [escape_cons_of_not (by decide), unescapeDots, ih, unescapeDots, escape_cons_of_not (by decide)]
  | case4 s hpercent hdot =>
      rw [unescapeDots.eq_3 s hpercent hdot]
      match s with
      | [] => rfl
      | c :: rest =>
          cases hescapes : Part.path.escapes c with
          | true => exact unescapeDots_escape_of_escapes hescapes rest
          | false =>
              have hne : c ≠ '.' := fun h => hdot rest (h ▸ rfl)
              rw [escape_cons_of_not hescapes]
              by_cases hc : c = '%'
              · subst hc
                refine unescapeDots_percent fun d t hsame => ?_
                obtain ⟨rest, rfl, ht⟩ := eq_cons_of_escape_eq_cons (by decide) hsame
                obtain _ | ⟨e, rest⟩ := rest
                · cases ht
                · exact absurd rfl (hpercent e rest)
              · exact unescapeDots_of_ne hc hne _

/-! ### Segments -/

/-- A segment as it is kept: it has no slashes, is escaped and is no dots. -/
structure IsSegment (s : List Char) : Prop where
  noSlash : ∀ c ∈ s, isSlash true c = false
  plain : IsPlainIn .path s
  noDots : unescapeDots s ≠ ['.'] ∧ unescapeDots s ≠ ['.', '.']

theorem isSegment_nil : IsSegment [] :=
  ⟨nofun, nofun, by decide⟩

theorem isSlash_of_mem_escape
    {s : List Char}
    (h : ∀ c ∈ s, isSlash true c = false)
    {c : Char}
    (hc : c ∈ escape .path s) :
    isSlash true c = false := by
  obtain ⟨d, hd, hc⟩ := List.mem_flatMap.mp hc
  rw [escapeChar] at hc
  split at hc
  · obtain ⟨b, hb, hc⟩ := List.mem_flatMap.mp hc
    have hsigns : ∀ c ∈ escapeSigns, isSlash true c = false := List.all_iff_forall_prop.mp (by decide)
    exact hsigns c (mem_escapeSigns_of_mem_escapeByte (Text.lt_of_mem_toBytes hb) hc)
  · obtain rfl := List.mem_singleton.mp hc
    exact h c hd

theorem eq_of_escape_eq_dots
    {s : List Char}
    {n : Nat}
    (h : escape .path s = List.replicate n '.') :
    s = List.replicate n '.' := by
  induction n generalizing s with
  | zero =>
      match s with
      | [] => rfl
      | c :: s =>
          cases hc : Part.path.escapes c with
          | true =>
              obtain ⟨_, _, _, heq, _⟩ := escape_cons_of_escapes hc s
              rw [heq] at h
              cases h
          | false =>
              rw [escape_cons_of_not hc] at h
              cases h
  | succ n ih =>
      obtain ⟨rest, rfl, hrest⟩ := eq_cons_of_escape_eq_cons (by decide) h
      rw [ih hrest.symm]
      rfl

theorem isSegment_escape
    {s : List Char}
    (hslash : ∀ c ∈ s, isSlash true c = false)
    (hone : unescapeDots s ≠ ['.'])
    (htwo : unescapeDots s ≠ ['.', '.']) :
    IsSegment (escape .path s) := by
  refine ⟨fun c => isSlash_of_mem_escape hslash, isPlainIn_escape .path s, ?_, ?_⟩
  · rw [unescapeDots_escape]
    exact fun h => hone (@eq_of_escape_eq_dots _ 1 h)
  · rw [unescapeDots_escape]
    exact fun h => htwo (@eq_of_escape_eq_dots _ 2 h)

/-! ### Reading -/

section Split

variable {slash : Char → Bool}

theorem split_ne_nil
    (s : List Char) :
    split slash s ≠ [] := by
  match s with
  | [] => simp [split]
  | c :: s =>
      rw [split]
      split
      · exact List.cons_ne_nil _ _
      · split <;> exact List.cons_ne_nil _ _

theorem split_no_slash
    {s t : List Char}
    (ht : t ∈ split slash s) :
    ∀ c ∈ t, slash c = false := by
  induction s generalizing t with
  | nil =>
      obtain rfl := List.mem_singleton.mp ht
      exact nofun
  | cons c s ih =>
      rw [split] at ht
      split at ht
      · obtain rfl | ht := List.mem_cons.mp ht
        · exact nofun
        · exact ih ht
      · next hc =>
          split at ht
          · next first more heq =>
              rw [heq] at ih
              obtain rfl | ht := List.mem_cons.mp ht
              · exact List.forall_mem_cons.mpr ⟨Bool.eq_false_iff.mpr hc, ih (List.mem_cons_self ..)⟩
              · exact ih (List.mem_cons_of_mem _ ht)
          · next heq => exact absurd heq (split_ne_nil s)

theorem split_of_no_slash
    {s : List Char}
    (h : ∀ c ∈ s, slash c = false) :
    split slash s = [s] := by
  induction s with
  | nil => rfl
  | cons c s ih =>
      obtain ⟨hc, hs⟩ := List.forall_mem_cons.mp h
      rw [split, hc, if_neg Bool.false_ne_true, ih hs]

theorem split_append_slash
    {s t : List Char}
    {d : Char}
    (h : ∀ c ∈ s, slash c = false)
    (hd : slash d = true) :
    split slash (s ++ d :: t) = s :: split slash t := by
  induction s with
  | nil => rw [List.nil_append, split, if_pos hd]
  | cons c s ih =>
      obtain ⟨hc, hs⟩ := List.forall_mem_cons.mp h
      rw [List.cons_append, split, hc, if_neg Bool.false_ne_true, ih hs]

/-- Segments without slashes are parted by the slashes between them. -/
theorem split_segments
    {s : List Char}
    {more : List (List Char)}
    (h : ∀ t ∈ s :: more, ∀ c ∈ t, slash c = false)
    (hslash : slash '/' = true) :
    split slash (s ++ more.flatMap ('/' :: ·)) = s :: more := by
  induction more generalizing s with
  | nil => rw [List.flatMap_nil, List.append_nil, split_of_no_slash (h s (List.mem_cons_self ..))]
  | cons t more ih =>
      obtain ⟨hs, hmore⟩ := List.forall_mem_cons.mp h
      rw [List.flatMap_cons, List.cons_append, split_append_slash hs hslash, ih hmore]

end Split

/-- What is kept of segments without slashes are segments. -/
theorem isSegment_of_mem_resolve
    {kept rest : List (List Char)}
    (hkept : ∀ s ∈ kept, IsSegment s)
    (hrest : ∀ s ∈ rest, ∀ c ∈ s, isSlash true c = false) :
    ∀ s ∈ resolve kept rest, IsSegment s := by
  induction rest generalizing kept with
  | nil => exact hkept
  | cons t rest ih =>
      obtain ⟨ht, hrest⟩ := List.forall_mem_cons.mp hrest
      have hdrop : ∀ s ∈ kept.drop 1, IsSegment s := fun s hs => hkept s (List.mem_of_mem_drop hs)
      rw [resolve]
      split
      · split
        · exact List.forall_mem_cons.mpr ⟨isSegment_nil, hkept⟩
        · exact ih hkept hrest
      · split
        · exact List.forall_mem_cons.mpr ⟨isSegment_nil, hdrop⟩
        · exact ih hdrop hrest
      · next hone htwo => exact ih (List.forall_mem_cons.mpr ⟨isSegment_escape ht hone htwo, hkept⟩) hrest

/-- Segments are kept as they are. -/
theorem resolve_segments
    {kept rest : List (List Char)}
    (h : ∀ s ∈ rest, IsSegment s) :
    resolve kept rest = rest.reverse ++ kept := by
  induction rest generalizing kept with
  | nil => rfl
  | cons s rest ih =>
      obtain ⟨hs, hrest⟩ := List.forall_mem_cons.mp h
      rw [resolve]
      split
      · next hdots => exact absurd hdots hs.noDots.1
      · next hdots => exact absurd hdots hs.noDots.2
      · rw [ih hrest, escape_eq_self hs.plain, List.reverse_cons, List.append_assoc, List.singleton_append]

/-- The text of segments is read as the segments. -/
theorem ofText_segments
    {s : List Char}
    {more : List (List Char)}
    (h : ∀ t ∈ s :: more, IsSegment t) :
    ofText (isSlash true) (s ++ more.flatMap ('/' :: ·)) = .segments (s :: more) := by
  rw [ofText, split_segments (fun t ht => (h t ht).noSlash) (by decide), resolve_segments h, List.append_nil,
    List.reverse_reverse]

theorem resolve_ne_nil
    {rest : List (List Char)}
    (h : rest ≠ [])
    (kept : List (List Char)) :
    resolve kept rest ≠ [] := by
  induction rest generalizing kept with
  | nil => exact absurd rfl h
  | cons s rest ih =>
      by_cases hrest : rest = []
      · subst hrest
        rw [resolve]
        split
        · exact List.cons_ne_nil _ _
        · exact List.cons_ne_nil _ _
        · exact List.cons_ne_nil _ _
      · rw [resolve]
        split
        · rw [if_neg hrest]
          exact ih hrest kept
        · rw [if_neg hrest]
          exact ih hrest _
        · exact ih hrest _

/-- A path as reading brings it: at least one segment. -/
inductive IsRead : Path → Prop
  | kept {first : List Char} {more : List (List Char)} :
      (∀ s ∈ first :: more, IsSegment s) → IsRead (.segments (first :: more))

theorem isRead_ofText
    (s : List Char) :
    (ofText (isSlash true) s).IsRead := by
  have hsegment := @isSegment_of_mem_resolve [] (split (isSlash true) s) (by simp) fun _ => split_no_slash
  have hne := resolve_ne_nil (@split_ne_nil (isSlash true) s) []
  obtain ⟨first, more, hlist⟩ := List.exists_cons_of_ne_nil (mt List.reverse_eq_nil_iff.mp hne)
  rw [ofText, hlist]
  exact .kept fun t ht => hsegment t (List.mem_reverse.mp (hlist ▸ ht))

/-- The text of a path starts with a slash, and what follows is read as the path. -/
theorem IsRead.exists_chars_eq
    {path : Path}
    (h : path.IsRead) :
    ∃ rest, path.chars = '/' :: rest ∧ ofText (isSlash true) rest = path := by
  cases h with
  | @kept first more hsegments => exact ⟨first ++ more.flatMap ('/' :: ·), rfl, ofText_segments hsegments⟩

theorem IsRead.isPlainIn
    {path : Path}
    (h : path.IsRead) :
    IsPlainIn .path path.chars := by
  cases h with
  | kept hsegments =>
      intro c hc
      obtain ⟨s, hs, hc⟩ := List.mem_flatMap.mp hc
      obtain rfl | hc := List.mem_cons.mp hc
      · decide
      · exact (hsegments s hs).plain c hc

/-! ### The slash at the end -/

theorem chars_append
    (front : List (List Char))
    (last : List Char) :
    (segments (front ++ [last])).chars = (segments front).chars ++ '/' :: last := by
  simp [chars]

/-- The slash that is missing at the end of a path. -/
def missingSlash (s : List Char) : List Char :=
  if s.getLast? = some '/' then [] else ['/']

/-- With a slash at its end, a path ends in an empty segment. -/
theorem IsRead.exists_withSlash_eq
    {path : Path}
    (h : path.IsRead) :
    ∃ front, path.withSlash = segments (front ++ [[]]) ∧ (∀ s ∈ front, IsSegment s) ∧
      (segments (front ++ [[]])).chars = path.chars ++ missingSlash path.chars := by
  cases h with
  | @kept first more hsegments =>
      rcases (first :: more).eq_nil_or_concat with hnil | ⟨front, last, hlist⟩
      · cases hnil
      rw [List.concat_eq_append] at hlist
      rw [hlist] at hsegments ⊢
      have hlast := (hsegments last (by simp)).noSlash
      rw [withSlash, List.getLast?_concat]
      rcases last.eq_nil_or_concat with rfl | ⟨t, c, rfl⟩
      · refine ⟨front, if_pos rfl, fun s hs => hsegments s (List.mem_append_left _ hs), ?_⟩
        rw [missingSlash, if_pos (by rw [chars_append]; simp), List.append_nil]
      · refine ⟨front ++ [t.concat c], if_neg (by simp), hsegments, ?_⟩
        have hend : (segments (front ++ [t.concat c])).chars.getLast? ≠ some '/' := by
          intro hslash
          have hc : c = '/' := by simpa [chars_append, List.getLast?_cons] using hslash
          exact absurd (hlast c (by simp)) (by rw [hc]; decide)
        rw [missingSlash, if_neg hend, chars_append]

theorem IsRead.chars_withSlash
    {path : Path}
    (h : path.IsRead) :
    path.withSlash.chars = path.chars ++ missingSlash path.chars := by
  obtain ⟨front, hpath, _, hchars⟩ := h.exists_withSlash_eq
  rw [hpath, hchars]

end Path
end Url
end AccessAudit
