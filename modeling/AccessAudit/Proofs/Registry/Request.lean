import AccessAudit.Proofs.Url.Reading
import AccessAudit.Registry.Client

/-!
# Where addresses are asked about

The text of the base and the text of an internet address are put together and read.  The internet address then
stands at the end of the last part of the base: of its path, but of the query or the fragment of a base that has
one.
-/

namespace AccessAudit

namespace Url

variable {domains : Domains}

/-- A path with a text added to its last segment. -/
def Path.extend (s : List Char) : Path → Path
  | .segments list => .segments (list.dropLast ++ [list.getLast?.getD [] ++ s])
  | .bare text => .bare (text ++ s)

/-- An address with a text added to its last part. -/
def extend (s : List Char) (u : Url) : Url :=
  match u.fragment, u.query with
  | some f, _ => { u with fragment := some (f ++ s) }
  | none, some q => { u with query := some (q ++ s) }
  | none, none => { u with path := u.path.extend s }

section Extend

variable {u : Url} (s : List Char)

theorem extend_of_fragment
    {f : List Char}
    (hfragment : u.fragment = some f) :
    u.extend s = { u with fragment := some (f ++ s) } := by
  simp only [extend, hfragment]

theorem extend_of_query
    {q : List Char}
    (hfragment : u.fragment = none)
    (hquery : u.query = some q) :
    u.extend s = { u with query := some (q ++ s) } := by
  simp only [extend, hfragment, hquery]

theorem extend_of_path
    (hfragment : u.fragment = none)
    (hquery : u.query = none) :
    u.extend s = { u with path := u.path.extend s } := by
  simp only [extend, hfragment, hquery]

variable (u)

@[simp] theorem extend_scheme : (u.extend s).scheme = u.scheme := by
  unfold extend
  split <;> rfl

@[simp] theorem extend_user : (u.extend s).user = u.user := by
  unfold extend
  split <;> rfl

@[simp] theorem extend_password : (u.extend s).password = u.password := by
  unfold extend
  split <;> rfl

@[simp] theorem extend_host : (u.extend s).host = u.host := by
  unfold extend
  split <;> rfl

@[simp] theorem extend_port : (u.extend s).port = u.port := by
  unfold extend
  split <;> rfl

end Extend

/-- A text that the last part of an address takes as it is. -/
structure IsTail (s : List Char) : Prop where
  segment : Path.IsSegment s
  query : IsPlainIn (.query true) s
  fragment : IsPlainIn .fragment s

/-- An address whose path ends in a slash. -/
structure IsBase (domains : Domains) (base : Url) : Prop where
  served : IsServed domains base
  path : ∃ front, base.path = .segments (front ++ [[]]) ∧ ∀ s ∈ front, Path.IsSegment s

theorem Path.extend_segments
    (front : List (List Char))
    (s : List Char) :
    (segments (front ++ [[]])).extend s = segments (front ++ [s]) := by
  simp [extend]

theorem Path.IsRead.chars_extend
    {path : Path}
    (h : path.IsRead)
    (s : List Char) :
    (path.withSlash.extend s).chars = path.chars ++ missingSlash path.chars ++ s := by
  obtain ⟨front, hpath, _, hchars⟩ := h.exists_withSlash_eq
  rw [hpath, extend_segments, ← hchars, chars_append, chars_append]
  simp

theorem Path.isRead_append
    {front : List (List Char)}
    (hfront : ∀ s ∈ front, IsSegment s)
    {last : List Char}
    (hlast : IsSegment last) :
    (segments (front ++ [last])).IsRead := by
  have hall : ∀ s ∈ front ++ [last], IsSegment s :=
    List.forall_mem_append.mpr ⟨hfront, List.forall_mem_singleton.mpr hlast⟩
  obtain ⟨first, more, hlist⟩ := List.exists_cons_of_ne_nil (List.append_ne_nil_of_right_ne_nil front
    (List.cons_ne_nil last []))
  rw [hlist] at hall ⊢
  exact .kept hall

/-- With a slash at the end of its path, an address is a base. -/
theorem IsServed.isBase
    {u : Url}
    (h : IsServed domains u) :
    IsBase domains { u with path := u.path.withSlash } := by
  obtain ⟨front, hpath, hfront, _⟩ := h.path.exists_withSlash_eq
  refine ⟨⟨h.scheme, h.user, h.password, h.host, h.port, ?_, h.query, h.fragment⟩, front, hpath, hfront⟩
  show u.path.withSlash.IsRead
  rw [hpath]
  exact Path.isRead_append hfront Path.isSegment_nil

section Tail

variable {base : Url} {s : List Char}

theorem IsBase.isServed_extend
    (hbase : IsBase domains base)
    (hs : IsTail s) :
    IsServed domains (base.extend s) := by
  obtain ⟨hserved, front, hpath, hfront⟩ := hbase
  obtain ⟨hpath', hquery', hfragment'⟩ : (base.extend s).path.IsRead ∧
      (∀ q, (base.extend s).query = some q → IsPlainIn (.query true) q) ∧
        ∀ f, (base.extend s).fragment = some f → IsPlainIn .fragment f := by
    rw [extend]
    split
    · next f hfragment =>
        refine ⟨hserved.path, hserved.query, fun _ hsame => ?_⟩
        obtain rfl := Option.some.inj hsame
        exact List.forall_mem_append.mpr ⟨hserved.fragment f hfragment, hs.fragment⟩
    · next q _ hquery =>
        refine ⟨hserved.path, fun _ hsame => ?_, hserved.fragment⟩
        obtain rfl := Option.some.inj hsame
        exact List.forall_mem_append.mpr ⟨hserved.query q hquery, hs.query⟩
    · refine ⟨?_, hserved.query, hserved.fragment⟩
      rw [hpath, Path.extend_segments]
      exact Path.isRead_append hfront hs.segment
  exact ⟨by simpa using hserved.scheme, by simpa using hserved.user, by simpa using hserved.password,
    by simpa using hserved.host, by simpa using hserved.port, hpath', hquery', hfragment'⟩

/-- Added to the last part, a text stands at the end. -/
theorem IsBase.chars_extend
    (hbase : IsBase domains base)
    (s : List Char) :
    (base.extend s).chars = base.chars ++ s := by
  obtain ⟨hserved, front, hpath, _⟩ := hbase
  obtain ⟨h, hhost, _⟩ := hserved.host
  have hfront : (base.extend s).frontChars h = base.frontChars h := by
    simp [frontChars, loginChars]
  have hbehind : (base.extend s).behindChars = base.behindChars ++ s := by
    rw [extend]
    split
    · next f hfragment => simp [behindChars, hfragment, fragmentChars]
    · next q hfragment hquery => simp [behindChars, hfragment, hquery, fragmentChars, queryChars]
    · next hfragment hquery =>
        simp [behindChars, hfragment, hquery, fragmentChars, queryChars, hpath, Path.extend_segments,
          Path.chars_append]
  rw [chars_eq hhost, chars_eq (by rw [extend_host, hhost]), extend_scheme, hfront, hbehind]
  simp

/-- The text of a base with a text behind it is read as the base with the text added. -/
theorem IsBase.ofText_append
    (hdomains : domains.Lawful)
    (hbase : IsBase domains base)
    (hs : IsTail s) :
    Url.ofText domains (base.text ++ String.ofList s) = .ok (base.extend s) := by
  have htext : base.text ++ String.ofList s = (base.extend s).text := by
    rw [text, text, hbase.chars_extend, String.ofList_append]
  rw [htext]
  exact (hbase.isServed_extend hs).ofText_text hdomains

end Tail

end Url

namespace Registry

open Url (Domains IsBase IsServed IsTail IsWeb)
open Url.Domain (lawful_toAscii? toAscii?)
open Url.Path (missingSlash)

variable {domains : Domains}

/-- The text of an internet address is no segment of dots, which do not denote one. -/
theorem chars_ne_dots
    (a : Address) :
    a.chars ≠ ['.'] ∧ a.chars ≠ ['.', '.'] := by
  have hone : Address.ofText? ['.'] = none := by decide
  have htwo : Address.ofText? ['.', '.'] = none := by decide
  constructor
  · intro hdots
    exact Option.some_ne_none a (by rw [← a.ofText?_chars, hdots, hone])
  · intro hdots
    exact Option.some_ne_none a (by rw [← a.ofText?_chars, hdots, htwo])

/-- The text of an internet address can stand at the end of any part. -/
theorem isTail_chars
    (a : Address) :
    IsTail a.chars := by
  have hdigits : ∀ d < 16, Url.isSlash true (Nat.digitChar d) = false ∧
      Url.Part.path.escapes (Nat.digitChar d) = false ∧ (Url.Part.query true).escapes (Nat.digitChar d) = false ∧
        Url.Part.fragment.escapes (Nat.digitChar d) = false ∧ Nat.digitChar d ≠ '%' := by decide
  have hchars : ∀ c ∈ a.chars, Url.isSlash true c = false ∧ Url.Part.path.escapes c = false ∧
      (Url.Part.query true).escapes c = false ∧ Url.Part.fragment.escapes c = false ∧ c ≠ '%' := by
    intro c hc
    obtain rfl | rfl | ⟨d, hd, rfl⟩ := Address.isAddressChar_of_mem_chars hc
    · decide
    · decide
    · exact hdigits d hd
  have hplain : Url.Path.unescapeDots a.chars = a.chars :=
    Url.Path.unescapeDots_eq_self fun hmem => (hchars _ hmem).2.2.2.2 rfl
  exact ⟨⟨fun c hc => (hchars c hc).1, fun c hc => (hchars c hc).2.1, hplain.symm ▸ chars_ne_dots a⟩,
    fun c hc => (hchars c hc).2.2.1, fun c hc => (hchars c hc).2.2.2.1⟩

/-- An address is asked about where its text stands at the end of the base. -/
theorem queryUrl_eq
    (hdomains : domains.Lawful)
    {base : Url}
    (h : IsBase domains base)
    (a : Address) :
    queryUrl domains base a = .ok (base.extend a.chars) :=
  h.ofText_append hdomains (isTail_chars a)

/-- What is requested about an address: the base with the text of the address added, without a login. -/
def asked (base : Url) (a : Address) : Url :=
  { base.extend a.chars with user := [], password := [] }

theorem canRequest_asked
    (base : Url)
    (a : Address) :
    canRequest (asked base a) = canRequest base := by
  simp [canRequest, asked, Url.hasHost]

theorem request_eq
    (hdomains : domains.Lawful)
    {base : Url}
    (h : IsBase domains base)
    (a : Address) :
    request domains base a =
      if canRequest base then .ok (asked base a) else .error (.notRequestable (asked base a)) := by
  simp only [request, queryUrl_eq hdomains h, ← canRequest_asked base a]
  rfl

theorem lookup_eq
    (hdomains : domains.Lawful)
    {base : Url}
    (h : IsBase domains base)
    (serve : Url → Exchange)
    (a : Address) :
    lookup serve base domains a =
      if canRequest base then received (asked base a) (serve (asked base a))
      else .error (.notRequestable (asked base a)) := by
  rw [lookup, request_eq hdomains h]
  split <;> rfl

/-- A text that names a place on the web makes a base. -/
theorem exists_baseOf_eq
    (hdomains : domains.Lawful)
    {text : String}
    {given : Url}
    (hread : Url.ofText domains text = .ok given)
    (hweb : IsWeb given.scheme) :
    ∃ base, baseOf text domains = .ok base ∧ IsBase domains base ∧
      base = { given with path := given.path.withSlash } :=
  ⟨_, by rw [baseOf, hread]; rfl, (Url.isServed_of_ofText hdomains hread hweb).isBase, rfl⟩

/-- An address of a server on the local machine, with the query if there is one. -/
def loopback (query : Option (List Char)) : Url :=
  { scheme := "http".toList, host := some (.v4 0x7F000001#32), port := some 45678,
    path := .segments ["ip".toList], query := query }

theorem ofText_loopback
    (hdomains : domains.Lawful)
    {query : Option (List Char)}
    (hquery : ∀ q, query = some q → Url.IsPlainIn (.query true) q) :
    Url.ofText domains (loopback query).text = .ok (loopback query) := by
  have hsegment : Url.Path.IsSegment "ip".toList :=
    ⟨List.all_iff_forall_prop.mp (by decide), List.all_iff_forall_prop.mp (by decide), by decide⟩
  have hport : Url.IsPort "http".toList (some 45678) := by
    intro n hn
    obtain rfl := Option.some.inj hn
    decide
  have hserved : IsServed domains (loopback query) :=
    ⟨.inl rfl, nofun, nofun, ⟨_, rfl, .v4 _⟩, hport, .kept (List.forall_mem_singleton.mpr hsegment), hquery, nofun⟩
  exact hserved.ofText_text hdomains

/-- Every lookup goes to the scheme, the host and the port of the given text.  An address is asked about at its own
place behind the path where the given text ends with its path; where a query or a fragment follows the path, the
text of the address becomes the end of that, and all addresses are asked about at one path. -/
theorem lookup_asks_behind_last_part
    (hdomains : domains.Lawful)
    {text : String}
    {given : Url}
    (hread : Url.ofText domains text = .ok given)
    (hweb : IsWeb given.scheme) :
    ∃ base, baseOf text domains = .ok base ∧
      (∀ serve a,
        lookup serve base domains a =
          if canRequest given then received (asked base a) (serve (asked base a))
          else .error (.notRequestable (asked base a))) ∧
      (∀ a,
        (asked base a).scheme = given.scheme ∧ (asked base a).host = given.host ∧
          (asked base a).port = given.port) ∧
      (given.query = none → given.fragment = none →
        (∀ a,
          (asked base a).path.chars = given.path.chars ++ missingSlash given.path.chars ++ a.chars ∧
            (asked base a).query = none ∧ (asked base a).fragment = none) ∧
        ∀ a b, (asked base a).path = (asked base b).path → a = b) ∧
      (∀ q, given.query = some q → given.fragment = none → ∀ a,
        (asked base a).path.chars = given.path.chars ++ missingSlash given.path.chars ∧
          (asked base a).query = some (q ++ a.chars) ∧ (asked base a).fragment = none) ∧
      ∀ f, given.fragment = some f → ∀ a,
        (asked base a).path.chars = given.path.chars ++ missingSlash given.path.chars ∧
          (asked base a).query = given.query ∧ (asked base a).fragment = some (f ++ a.chars) := by
  obtain ⟨base, hbaseOf, hbase, hmade⟩ := exists_baseOf_eq hdomains hread hweb
  have hgiven : given.path.IsRead := (Url.isServed_of_ofText hdomains hread hweb).path
  obtain ⟨hpath, hbaseQuery, hbaseFragment⟩ : base.path = given.path.withSlash ∧ base.query = given.query ∧
      base.fragment = given.fragment := by
    rw [hmade]
    exact ⟨rfl, rfl, rfl⟩
  have hplace : base.path.chars = given.path.chars ++ missingSlash given.path.chars := by
    rw [hpath, hgiven.chars_withSlash]
  refine ⟨base, hbaseOf, fun serve a => ?_, fun a => by simp [asked, hmade], ?_, ?_, ?_⟩
  · rw [lookup_eq hdomains hbase, hmade]
    rfl
  · intro hquery hfragment
    have hasked : ∀ a, asked base a =
        { base with path := base.path.extend a.chars, user := [], password := [] } := by
      intro a
      rw [asked, Url.extend_of_path a.chars (hbaseFragment.trans hfragment) (hbaseQuery.trans hquery)]
    have hchars : ∀ a, (asked base a).path.chars =
        given.path.chars ++ missingSlash given.path.chars ++ a.chars := by
      intro a
      rw [hasked, hpath, hgiven.chars_extend]
    refine ⟨fun a => ⟨hchars a, ?_⟩, fun a b hsame => ?_⟩
    · rw [hasked]
      exact ⟨hbaseQuery.trans hquery, hbaseFragment.trans hfragment⟩
    · have hboth := congrArg Url.Path.chars hsame
      rw [hchars, hchars] at hboth
      exact Address.chars_injective (List.append_cancel_left hboth)
  · intro q hquery hfragment a
    rw [asked, Url.extend_of_query a.chars (hbaseFragment.trans hfragment) (hbaseQuery.trans hquery)]
    exact ⟨hplace, rfl, hbaseFragment.trans hfragment⟩
  · intro f hfragment a
    rw [asked, Url.extend_of_fragment a.chars (hbaseFragment.trans hfragment)]
    exact ⟨hplace, hbaseQuery, rfl⟩

/-- Without a query, an address is asked about at its own path. -/
theorem loopback_asks_at_own_path :
    Domains.Lawful toAscii? ∧ Url.ofText toAscii? "http://127.0.0.1:45678/ip" = .ok (loopback none) ∧
      IsWeb (loopback none).scheme ∧
      ∃ base, baseOf "http://127.0.0.1:45678/ip" toAscii? = .ok base ∧
        (asked base (.v4 0xC6336407#32)).path.chars = "/ip/198.51.100.7".toList ∧
        ∀ serve, lookup serve base toAscii? (.v4 0xC6336407#32) =
          received (asked base (.v4 0xC6336407#32)) (serve (asked base (.v4 0xC6336407#32))) := by
  have hread : Url.ofText toAscii? "http://127.0.0.1:45678/ip" = .ok (loopback none) := by
    have htext : (loopback none).text = "http://127.0.0.1:45678/ip" := by rfl
    rw [← htext]
    exact ofText_loopback lawful_toAscii? nofun
  obtain ⟨base, hbase, hlookup, -, hpath, -⟩ :=
    lookup_asks_behind_last_part lawful_toAscii? hread (.inl rfl)
  refine ⟨lawful_toAscii?, hread, .inl rfl, base, hbase, ?_, fun serve => ?_⟩
  · rw [((hpath rfl rfl).1 _).1]
    rfl
  · rw [hlookup, if_pos (by decide)]

/-- With a query, two addresses are asked about at one path, and neither with the query that was given. -/
theorem queried_loopback_shares_path :
    ∃ base u v, baseOf "http://127.0.0.1:45678/ip?key=1" toAscii? = .ok base ∧
      (∀ serve, lookup serve base toAscii? (.v4 0xC6336407#32) = received u (serve u)) ∧
      (∀ serve, lookup serve base toAscii? (.v4 0xC0000201#32) = received v (serve v)) ∧
      u.text = "http://127.0.0.1:45678/ip/?key=1198.51.100.7" ∧ u.query = some "key=1198.51.100.7".toList ∧
      v.text = "http://127.0.0.1:45678/ip/?key=1192.0.2.1" ∧ v.query = some "key=1192.0.2.1".toList ∧
      u.path.chars = "/ip/".toList ∧ v.path = u.path := by
  have hread : Url.ofText toAscii? "http://127.0.0.1:45678/ip?key=1" = .ok (loopback (some "key=1".toList)) := by
    have htext : (loopback (some "key=1".toList)).text = "http://127.0.0.1:45678/ip?key=1" := by rfl
    rw [← htext]
    refine ofText_loopback lawful_toAscii? fun q hq => ?_
    obtain rfl := Option.some.inj hq
    exact List.all_iff_forall_prop.mp (by decide)
  obtain ⟨base, hbaseOf, hbase, hmade⟩ := exists_baseOf_eq lawful_toAscii? hread (.inl rfl)
  have hrequest : canRequest base = true := by
    rw [hmade]
    decide
  refine ⟨base, asked base (.v4 0xC6336407#32), asked base (.v4 0xC0000201#32), hbaseOf, fun serve => ?_,
    fun serve => ?_, ?_⟩
  · rw [lookup_eq lawful_toAscii? hbase, if_pos hrequest]
  · rw [lookup_eq lawful_toAscii? hbase, if_pos hrequest]
  · rw [hmade]
    exact ⟨by rfl, by rfl, by rfl, by rfl, by rfl, by rfl⟩

end Registry
end AccessAudit
