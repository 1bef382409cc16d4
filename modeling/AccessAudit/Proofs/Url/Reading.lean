import AccessAudit.Proofs.Url.Authority
import AccessAudit.Proofs.Url.Path

/-!
# Addresses of resources are read back

Reading an address that is served over the web brings each of its parts into a form in which the text of the
part is read as the part.  So the text of an address that has been read is read as the same address.
-/

namespace AccessAudit
namespace Url

variable {domains : Domains}

/-- The schemes of the web. -/
def IsWeb (scheme : List Char) : Prop :=
  scheme = "http".toList ∨ scheme = "https".toList

theorem IsWeb.isSpecial
    {scheme : List Char}
    (h : IsWeb scheme) :
    isFile scheme = false ∧ isSpecial scheme = true := by
  obtain rfl | rfl := h <;> decide

/-- An address that is served over the web, with all parts as reading brings them. -/
structure IsServed (domains : Domains) (u : Url) : Prop where
  scheme : IsWeb u.scheme
  user : IsPlainIn .user u.user
  password : IsPlainIn .user u.password
  host : ∃ h, u.host = some h ∧ h.IsRead domains
  port : IsPort u.scheme u.port
  path : u.path.IsRead
  query : ∀ q, u.query = some q → IsPlainIn (.query true) q
  fragment : ∀ f, u.fragment = some f → IsPlainIn .fragment f

/-! ### What is read -/

theorem isServed_of_readServed
    (hdomains : domains.Lawful)
    {scheme s : List Char}
    (hweb : IsWeb scheme)
    {u : Url}
    {query fragment : Option (List Char)}
    (h : readServed domains scheme s = .ok (u, query, fragment)) :
    IsServed domains (u.withEnd query fragment) := by
  obtain ⟨hfile, hspecial⟩ := hweb.isSpecial
  simp only [readServed, hspecial] at h
  obtain ⟨⟨a, extra⟩, hauthority, h⟩ := exists_of_bind_eq_ok h
  obtain ⟨rfl, hends⟩ := Prod.mk.inj (Except.ok.inj h)
  have ha := isRead_of_readAuthority hdomains hspecial hauthority
  refine ⟨hweb, ha.user, ha.password, ⟨a.host, rfl, ha.host⟩, ha.port, ?_, ?_, ?_⟩
  · simp only [withEnd]
    split
    · exact .kept (by simpa using Path.isSegment_nil)
    · exact Path.isRead_ofText _
  · intro q hq
    simp only [withEnd, hspecial, Option.map_eq_some_iff] at hq
    obtain ⟨q, _, rfl⟩ := hq
    exact isPlainIn_escape (.query true) q
  · intro f hf
    simp only [withEnd, Option.map_eq_some_iff] at hf
    obtain ⟨f, _, rfl⟩ := hf
    exact isPlainIn_escape .fragment f

theorem scheme_of_readServed
    {scheme s : List Char}
    {u : Url}
    {query fragment : Option (List Char)}
    (h : readServed domains scheme s = .ok (u, query, fragment)) :
    u.scheme = scheme := by
  simp only [readServed] at h
  obtain ⟨⟨a, extra⟩, _, h⟩ := exists_of_bind_eq_ok h
  obtain ⟨rfl, -⟩ := Prod.mk.inj (Except.ok.inj h)
  rfl

theorem scheme_of_readFile
    {scheme s : List Char}
    {u : Url}
    {query fragment : Option (List Char)}
    (h : readFile domains scheme s = .ok (u, query, fragment)) :
    u.scheme = scheme := by
  simp only [readFile] at h
  split at h
  · split at h
    · split at h
      · obtain ⟨_, _, h⟩ := exists_of_bind_eq_ok h
        obtain ⟨rfl, -⟩ := Prod.mk.inj (Except.ok.inj h)
        rfl
      · obtain ⟨_, _, h⟩ := exists_of_bind_eq_ok h
        obtain ⟨rfl, -⟩ := Prod.mk.inj (Except.ok.inj h)
        rfl
    · obtain ⟨rfl, -⟩ := Prod.mk.inj (Except.ok.inj h)
      rfl
  · obtain ⟨rfl, -⟩ := Prod.mk.inj (Except.ok.inj h)
    rfl

/-- A text that is read as an address of the web is read as one with all its parts in their form. -/
theorem isServed_of_ofText
    (hdomains : domains.Lawful)
    {text : String}
    {u : Url}
    (hread : Url.ofText domains text = .ok u)
    (hweb : IsWeb u.scheme) :
    IsServed domains u := by
  obtain ⟨hfile, hspecial⟩ := hweb.isSpecial
  simp only [Url.ofText] at hread
  split at hread
  · cases hread
  next scheme rest hscheme =>
  split at hread
  · next hfile' =>
      obtain ⟨⟨read, query, fragment⟩, hrest, hread⟩ := exists_of_bind_eq_ok hread
      obtain rfl := Except.ok.inj hread
      rw [← scheme_of_readFile hrest] at hfile'
      exact absurd (hfile.symm.trans hfile') Bool.false_ne_true
  split at hread
  · obtain ⟨⟨read, query, fragment⟩, hrest, hread⟩ := exists_of_bind_eq_ok hread
    obtain rfl := Except.ok.inj hread
    have hsame := scheme_of_readServed hrest
    exact isServed_of_readServed hdomains (hsame ▸ hweb) hrest
  next hspecial' =>
  refine absurd ?_ hspecial'
  split at hread
  · obtain ⟨⟨read, query, fragment⟩, hrest, hread⟩ := exists_of_bind_eq_ok hread
    obtain rfl := Except.ok.inj hread
    rw [← scheme_of_readServed hrest]
    exact hspecial
  · obtain rfl := Except.ok.inj hread
    exact hspecial

/-! ### The text of an address -/

/-- What stands between the slashes and the path. -/
def frontChars (u : Url) (h : Host) : List Char :=
  u.loginChars ++ (h.chars ++ portChars u.port)

/-- A query with its sign. -/
def queryChars : Option (List Char) → List Char
  | some q => '?' :: q
  | none => []

/-- A fragment with its sign. -/
def fragmentChars : Option (List Char) → List Char
  | some f => '#' :: f
  | none => []

/-- The path and what follows it. -/
def behindChars (u : Url) : List Char :=
  u.path.chars ++ queryChars u.query ++ fragmentChars u.fragment

theorem chars_eq
    {u : Url}
    {h : Host}
    (hhost : u.host = some h) :
    u.chars = u.scheme ++ ':' :: '/' :: '/' :: (u.frontChars h ++ u.behindChars) := by
  rw [chars, authorityChars, hhost, frontChars, behindChars]
  cases hport : u.port <;> cases hquery : u.query <;> cases hfragment : u.fragment <;>
    simp [portChars, queryChars, fragmentChars]

section Written

variable {u : Url} {h : Host}

theorem IsServed.mem_loginChars
    (hserved : IsServed domains u)
    {c : Char}
    (hc : c ∈ u.loginChars) :
    Part.user.escapes c = false ∨ c = ':' ∨ c = '@' := by
  rw [loginChars] at hc
  split at hc
  · cases hc
  simp only [List.mem_append, List.mem_singleton] at hc
  obtain (hc | hc) | hc := hc
  · exact .inl (hserved.user c hc)
  · split at hc
    · cases hc
    · obtain hc | hc := List.mem_cons.mp hc
      · exact .inr (.inl hc)
      · exact .inl (hserved.password c hc)
  · exact .inr (.inr hc)

theorem mem_portChars
    {port : Option Nat}
    {c : Char}
    (hc : c ∈ portChars port) :
    c = ':' ∨ c.isDigit = true := by
  match port with
  | some n =>
      obtain hc | hc := List.mem_cons.mp hc
      · exact .inl hc
      · exact .inr (Decimal.isDigit_of_mem_digits hc)

theorem endsAuthority_eq_false
    {c : Char}
    (h : c ∉ ['/', '\\', '?', '#']) :
    endsAuthority true c = false := by
  simp only [List.mem_cons, List.not_mem_nil, or_false, not_or] at h
  simp [endsAuthority, isSlash, h]

theorem isDigit_visible
    {c : Char}
    (h : c.isDigit = true) :
    32 < c.toNat ∧ c ∉ ['/', '\\', '?', '#'] := by
  have hle : 48 ≤ c.toNat := by
    rw [Char.isDigit, Bool.and_eq_true, decide_eq_true_eq] at h
    exact h.1
  refine ⟨by omega, fun hmem => ?_⟩
  simp only [List.mem_cons, List.not_mem_nil, or_false] at hmem
  rcases hmem with rfl | rfl | rfl | rfl <;> revert h <;> decide

/-- In front of the path there is no sign that would end it. -/
theorem IsServed.mem_frontChars
    (hserved : IsServed domains u)
    (hread : h.IsRead domains)
    {c : Char}
    (hc : c ∈ u.frontChars h) :
    32 < c.toNat ∧ endsAuthority true c = false := by
  rw [frontChars, List.mem_append, List.mem_append] at hc
  obtain hc | hc | hc := hc
  · obtain hc | rfl | rfl := hserved.mem_loginChars hc
    · refine ⟨lt_toNat_of_escapes (by decide) hc, endsAuthority_eq_false fun hmem => ?_⟩
      have hescapes : ∀ c ∈ ['/', '\\', '?', '#'], Part.user.escapes c = true :=
        List.all_iff_forall_prop.mp (by decide)
      rw [hescapes c hmem] at hc
      cases hc
    · decide
    · decide
  · have hchar := hread.isHostChar hc
    refine ⟨hchar.visible, endsAuthority_eq_false fun hmem => hchar.noEnd ?_⟩
    exact List.mem_append_left ['@'] hmem
  · obtain rfl | hc := mem_portChars hc
    · decide
    · exact ⟨(isDigit_visible hc).1, endsAuthority_eq_false (isDigit_visible hc).2⟩

theorem IsServed.visible
    (hserved : IsServed domains u)
    {c : Char}
    (hc : c ∈ u.chars) :
    32 < c.toNat := by
  obtain ⟨h, hhost, hread⟩ := hserved.host
  rw [chars_eq hhost] at hc
  simp only [List.mem_append, List.mem_cons, behindChars] at hc
  obtain hc | rfl | rfl | rfl | hc | (hc | hc) | hc := hc
  · have hscheme : ∀ c ∈ "http".toList ++ "https".toList, 32 < c.toNat :=
      List.all_iff_forall_prop.mp (by decide)
    refine hscheme c (List.mem_append.mpr ?_)
    obtain hsame | hsame := hserved.scheme
    · exact .inl (hsame ▸ hc)
    · exact .inr (hsame ▸ hc)
  · decide
  · decide
  · decide
  · exact (hserved.mem_frontChars hread hc).1
  · exact lt_toNat_of_escapes (by decide) (hserved.path.isPlainIn c hc)
  · cases hquery : u.query with
    | none =>
        rw [hquery] at hc
        cases hc
    | some q =>
        rw [hquery] at hc
        obtain rfl | hc := List.mem_cons.mp hc
        · decide
        · exact lt_toNat_of_escapes (by decide) (hserved.query q hquery c hc)
  · cases hfragment : u.fragment with
    | none =>
        rw [hfragment] at hc
        cases hc
    | some f =>
        rw [hfragment] at hc
        obtain rfl | hc := List.mem_cons.mp hc
        · decide
        · exact lt_toNat_of_escapes (by decide) (hserved.fragment f hfragment c hc)

/-! ### Reading it back -/

theorem clean_eq_self
    {s : List Char}
    (h : ∀ c ∈ s, 32 < c.toNat) :
    clean s = s := by
  have hdrop : ∀ t : List Char, (∀ c ∈ t, 32 < c.toNat) → t.dropWhile (fun c => decide (c.toNat ≤ 32)) = t := by
    intro t ht
    match t with
    | [] => rfl
    | c :: t =>
        exact List.dropWhile_cons_of_neg (by simpa using ht c (List.mem_cons_self ..))
  rw [clean, hdrop s h, hdrop s.reverse fun c hc => h c (List.mem_reverse.mp hc), List.reverse_reverse,
    List.filter_eq_self]
  intro c hc
  have hlt := h c hc
  simp only [Bool.not_eq_true', Bool.or_eq_false_iff, beq_eq_false_iff_ne, ne_eq]
  refine ⟨⟨?_, ?_⟩, ?_⟩ <;> rintro rfl <;> revert hlt <;> decide

theorem splitScheme_web
    {scheme : List Char}
    (h : IsWeb scheme)
    (rest : List Char) :
    splitScheme (scheme ++ ':' :: rest) = some (scheme, rest) := by
  obtain rfl | rfl := h <;> rfl

theorem cut_append
    {c : Char}
    {before : List Char}
    (h : c ∉ before)
    (after : List Char) :
    cut c (before ++ c :: after) = (before, some after) := by
  rw [cut, Text.splitOnce_append h]

theorem cut_of_not_mem
    {c : Char}
    {s : List Char}
    (h : c ∉ s) :
    cut c s = (s, none) := by
  rw [cut, Text.splitOnce_of_not_mem h]

theorem cut_query
    {s : List Char}
    (h : '?' ∉ s)
    (query : Option (List Char)) :
    cut '?' (s ++ queryChars query) = (s, query) := by
  cases query with
  | none => rw [queryChars, List.append_nil, cut_of_not_mem h]
  | some q => exact cut_append h q

theorem cut_fragment
    {s : List Char}
    (h : '#' ∉ s)
    (fragment : Option (List Char)) :
    cut '#' (s ++ fragmentChars fragment) = (s, fragment) := by
  cases fragment with
  | none => rw [fragmentChars, List.append_nil, cut_of_not_mem h]
  | some f => exact cut_append h f

theorem IsServed.readServed_chars
    (hdomains : domains.Lawful)
    (hserved : IsServed domains u)
    (hhost : u.host = some h)
    (hread : h.IsRead domains) :
    readServed domains u.scheme (u.frontChars h ++ u.behindChars) =
      .ok ({ u with query := none, fragment := none }, u.query, u.fragment) := by
  have hspecial := hserved.scheme.isSpecial.2
  obtain ⟨rest, hpath, hback⟩ := hserved.path.exists_chars_eq
  have hbehind : u.behindChars = '/' :: (rest ++ queryChars u.query ++ fragmentChars u.fragment) := by
    rw [behindChars, hpath]
    rfl
  have hfront : ∀ c ∈ u.frontChars h, (!endsAuthority true c) = true := fun c hc => by
    rw [(hserved.mem_frontChars hread hc).2]
    rfl
  have htake : (u.frontChars h ++ u.behindChars).takeWhile (fun c => !endsAuthority true c) = u.frontChars h := by
    rw [List.takeWhile_append_of_pos hfront, hbehind, List.takeWhile_cons_of_neg (by decide), List.append_nil]
  have hdrop : (u.frontChars h ++ u.behindChars).dropWhile (fun c => !endsAuthority true c) = u.behindChars := by
    rw [List.dropWhile_append_of_pos hfront, hbehind, List.dropWhile_cons_of_neg (by decide)]
  have hauthority : ∀ more, readAuthority domains u.scheme more (u.frontChars h) =
      .ok (⟨u.user, u.password, h, u.port⟩, []) :=
    readAuthority_chars hdomains hspecial hserved.user hserved.password hread hserved.port
  have hmark : '#' ∉ u.path.chars ++ queryChars u.query := by
    rw [List.mem_append, not_or]
    refine ⟨hserved.path.isPlainIn.not_mem (by decide), fun hmem => ?_⟩
    cases hquery : u.query with
    | none =>
        rw [hquery] at hmem
        cases hmem
    | some q =>
        rw [hquery] at hmem
        obtain hsame | hmem := List.mem_cons.mp hmem
        · exact absurd hsame (by decide)
        · exact (hserved.query q hquery).not_mem (by decide) hmem
  have hfragment : cut '#' u.behindChars = (u.path.chars ++ queryChars u.query, u.fragment) :=
    cut_fragment hmark u.fragment
  have hquery : cut '?' (u.path.chars ++ queryChars u.query) = (u.path.chars, u.query) :=
    cut_query (hserved.path.isPlainIn.not_mem (by decide)) u.query
  simp only [readServed, hspecial, htake, hdrop, hauthority, hfragment, hquery]
  rw [hpath, hhost]
  exact congrArg (fun path => Except.ok (Url.mk u.scheme u.user u.password h u.port path none none, u.query,
    u.fragment)) hback

/-- The text of an address of the web is read as the address. -/
theorem IsServed.ofText_text
    (hdomains : domains.Lawful)
    (hserved : IsServed domains u) :
    Url.ofText domains u.text = .ok u := by
  obtain ⟨h, hhost, hread⟩ := hserved.host
  obtain ⟨hfile, hspecial⟩ := hserved.scheme.isSpecial
  have hclean : clean u.text.toList = u.chars := by
    rw [text, String.toList_ofList, clean_eq_self fun c hc => hserved.visible hc]
  have hslashes : ('/' :: '/' :: (u.frontChars h ++ u.behindChars)).dropWhile (isSlash true) =
      u.frontChars h ++ u.behindChars := by
    have hne : u.frontChars h ≠ [] :=
      List.append_ne_nil_of_right_ne_nil _ (List.append_ne_nil_of_left_ne_nil hread.chars_ne_nil _)
    obtain ⟨c, front, hfront⟩ := List.exists_cons_of_ne_nil hne
    have hc := (hserved.mem_frontChars hread (hfront ▸ List.mem_cons_self ..)).2
    simp only [endsAuthority, Bool.or_eq_false_iff] at hc
    rw [List.dropWhile_cons_of_pos (by decide), List.dropWhile_cons_of_pos (by decide), hfront, List.cons_append,
      List.dropWhile_cons_of_neg (by simp [hc.1.1])]
  have hend : withEnd { u with query := none, fragment := none } u.query u.fragment = u := by
    have hquery : u.query.map (escape (.query (isSpecial u.scheme))) = u.query := by
      rw [hspecial]
      cases hquery : u.query with
      | none => rfl
      | some q => rw [Option.map_some, escape_eq_self (hserved.query q hquery)]
    have hfragment : u.fragment.map (escape .fragment) = u.fragment := by
      cases hfragment : u.fragment with
      | none => rfl
      | some f => rw [Option.map_some, escape_eq_self (hserved.fragment f hfragment)]
    rw [withEnd, hquery, hfragment]
  rw [Url.ofText, hclean, chars_eq hhost, splitScheme_web hserved.scheme]
  simp only [hfile, hspecial, hslashes, hserved.readServed_chars hdomains hhost hread]
  exact congrArg Except.ok hend

end Written

end Url
end AccessAudit
