import AccessAudit.Proofs.Basic
import AccessAudit.Proofs.Decimal.Numerals
import AccessAudit.Proofs.Url.Host
import AccessAudit.Url

/-!
# What stands in front of a path is read back

In the text of an address a sign of the address itself separates login, host and port from each other, and
none of these parts holds the sign that ends it.
-/

namespace AccessAudit
namespace Url

variable {domains : Domains}

/-! ### Logins -/

theorem splitLast_append
    {c : Char}
    {after : List Char}
    (h : c ∉ after)
    (before : List Char) :
    splitLast c (before ++ c :: after) = some (before, after) := by
  have hreverse : (before ++ c :: after).reverse = after.reverse ++ c :: before.reverse := by simp
  rw [splitLast, hreverse, Text.splitOnce_append (by simpa using h)]
  simp

theorem splitLast_of_not_mem
    {c : Char}
    {s : List Char}
    (h : c ∉ s) :
    splitLast c s = none := by
  rw [splitLast, Text.splitOnce_of_not_mem (by simpa using h)]
  rfl

/-! ### Ports -/

/-- The text of a port with its colon. -/
def portChars : Option Nat → List Char
  | some n => ':' :: Nat.toDigits 10 n
  | none => []

/-- The digits of a port, if there is one. -/
def portDigits : Option Nat → Option (List Char) :=
  Option.map (Nat.toDigits 10)

theorem splitPort_append
    {s : List Char}
    (h : ∀ c ∈ s, c ∉ [':', '[', ']'])
    (t : List Char) :
    splitPort false (s ++ t) = (s ++ (splitPort false t).1, (splitPort false t).2) := by
  induction s with
  | nil => rfl
  | cons c s ih =>
      obtain ⟨hc, hs⟩ := List.forall_mem_cons.mp h
      simp only [List.mem_cons, List.not_mem_nil, or_false, not_or] at hc
      rw [List.cons_append, splitPort, if_neg (fun hcolon => hc.1 hcolon.1), if_neg hc.2.1, if_neg hc.2.2, ih hs]
      rfl

theorem splitPort_inside
    {s : List Char}
    (h : ∀ c ∈ s, c ∉ ['[', ']'])
    (t : List Char) :
    splitPort true (s ++ t) = (s ++ (splitPort true t).1, (splitPort true t).2) := by
  induction s with
  | nil => rfl
  | cons c s ih =>
      obtain ⟨hc, hs⟩ := List.forall_mem_cons.mp h
      simp only [List.mem_cons, List.not_mem_nil, or_false, not_or] at hc
      rw [List.cons_append, splitPort, if_neg (by simp), if_neg hc.1, if_neg hc.2, ih hs]
      rfl

theorem splitPort_portChars
    (port : Option Nat) :
    splitPort false (portChars port) = ([], portDigits port) := by
  cases port <;> rfl

theorem splitPort_domain
    {text : List Char}
    (h : Host.IsDomain domains text)
    (port : Option Nat) :
    splitPort false (text ++ portChars port) = (text, portDigits port) := by
  have hchars : ∀ c ∈ text, c ∉ [':', '[', ']'] := fun c hc => h.not_mem hc (by decide)
  rw [splitPort_append hchars, splitPort_portChars, List.append_nil]

/-- A host is cut off before its port. -/
theorem splitPort_host
    (hdomains : domains.Lawful)
    {h : Host}
    (hread : h.IsRead domains)
    (port : Option Nat) :
    splitPort false (h.chars ++ portChars port) = (h.chars, portDigits port) := by
  cases hread with
  | name hdomain _ _ => exact splitPort_domain hdomain port
  | v4 bits => exact splitPort_domain (Host.isDomain_dotted hdomains bits.toNat) port
  | v6 bits =>
      have hchars : ∀ c ∈ Address.compressed bits.toNat, c ∉ ['[', ']'] := fun c hc =>
        (Host.isHostChar_of_isAddressChar (Address.isAddressChar_of_mem_compressed hc)).2
      have hopen : splitPort false ('[' :: (Address.compressed bits.toNat ++ ']' :: portChars port)) =
          ('[' :: (splitPort true (Address.compressed bits.toNat ++ ']' :: portChars port)).1,
            (splitPort true (Address.compressed bits.toNat ++ ']' :: portChars port)).2) := by
        rw [splitPort, if_neg (by decide), if_pos rfl]
      have hclose : splitPort true (']' :: portChars port) =
          (']' :: (splitPort false (portChars port)).1, (splitPort false (portChars port)).2) := by
        rw [splitPort, if_neg (by decide), if_neg (by decide), if_pos rfl]
      rw [Host.chars, List.cons_append, List.append_assoc, List.singleton_append, hopen, splitPort_inside hchars,
        hclose, splitPort_portChars]

/-- A port that is read as itself. -/
def IsPort (scheme : List Char) (port : Option Nat) : Prop :=
  ∀ n, port = some n → n ≤ 65535 ∧ defaultPort scheme ≠ some n

theorem readPort_portDigits
    {scheme : List Char}
    {port : Option Nat}
    (h : IsPort scheme port) :
    readPort scheme ((portDigits port).getD []) = .ok (port, []) := by
  cases port with
  | none => simp [portDigits, readPort]
  | some n =>
      obtain ⟨hle, hdefault⟩ := h n rfl
      have hdigits : ∀ c ∈ Nat.toDigits 10 n, c.isDigit = true := fun c hc => Decimal.isDigit_of_mem_digits hc
      have htake : (Nat.toDigits 10 n).takeWhile Char.isDigit = Nat.toDigits 10 n :=
        List.takeWhile_eq_self_iff.mpr hdigits
      have hdrop : (Nat.toDigits 10 n).dropWhile Char.isDigit = [] :=
        List.dropWhile_eq_nil_iff.mpr hdigits
      rw [portDigits, Option.map_some, Option.getD_some, readPort]
      simp only [htake, hdrop, Nat.ofDigitChars_ten_toDigits]
      rw [if_neg, if_neg]
      · rintro (hnil | hsame)
        · exact Nat.toDigits_ne_nil hnil
        · exact hdefault hsame
      · rintro (hlt | ⟨hne, _⟩)
        · omega
        · exact hne rfl

theorem isPort_of_readPort
    {scheme s rest : List Char}
    {port : Option Nat}
    (h : readPort scheme s = .ok (port, rest)) :
    IsPort scheme port := by
  rw [readPort] at h
  split at h
  · cases h
  next hsmall =>
  split at h
  · obtain ⟨rfl, -⟩ := Prod.mk.inj (Except.ok.inj h)
    exact nofun
  · next hnamed =>
      obtain ⟨rfl, -⟩ := Prod.mk.inj (Except.ok.inj h)
      rintro n hn
      obtain rfl := Option.some.inj hn
      exact ⟨Nat.not_lt.mp fun hlt => hsmall (.inl hlt), fun hsame => hnamed (.inr hsame)⟩

/-! ### Authorities -/

/-- The characters of a login, a host and a port are no signs of an address but their own. -/
theorem at_not_mem_place
    {h : Host}
    (hread : h.IsRead domains)
    (port : Option Nat) :
    '@' ∉ h.chars ++ portChars port := by
  rw [List.mem_append, not_or]
  refine ⟨fun hmem => (hread.isHostChar hmem).noEnd (by decide), fun hmem => ?_⟩
  match port with
  | some n =>
      obtain hsame | hmem := List.mem_cons.mp hmem
      · exact absurd hsame (by decide)
      · exact absurd (Decimal.isDigit_of_mem_digits hmem) (by decide)

/-- The login of an address as it is written, without its end. -/
def loginText (user password : List Char) : List Char :=
  user ++ if password = [] then [] else ':' :: password

theorem splitOnce_loginText
    {user password : List Char}
    (huser : ':' ∉ user) :
    (Text.splitOnce ':' (loginText user password)).getD (loginText user password, []) = (user, password) := by
  rw [loginText]
  split
  · next hnil => rw [List.append_nil, Text.splitOnce_of_not_mem huser, hnil]; rfl
  · rw [Text.splitOnce_append huser]; rfl

theorem readAuthority_place
    (hdomains : domains.Lawful)
    {scheme s : List Char}
    {more : Bool}
    {login : Option (List Char)}
    {user password : List Char}
    {h : Host}
    {port : Option Nat}
    (hspecial : isSpecial scheme = true)
    (hread : h.IsRead domains)
    (hport : IsPort scheme port)
    (hlogin : ((splitLast '@' s).map fun (login, place) => (some login, place)).getD (none, s) =
      (login, h.chars ++ portChars port))
    (huser : (Text.splitOnce ':' (login.getD [])).getD (login.getD [], []) = (user, password)) :
    readAuthority domains scheme more s = .ok (⟨escape .user user, escape .user password, h, port⟩, []) := by
  have hne := hread.chars_ne_nil
  have hplace : h.chars ++ portChars port ≠ [] := List.append_ne_nil_of_left_ne_nil hne _
  have hname : h ≠ .name [] := by
    rintro rfl
    exact hne rfl
  rw [readAuthority]
  simp only [hspecial, hlogin, huser, splitPort_host hdomains hread, hread.ofText_chars hdomains,
    readPort_portDigits hport]
  rw [if_neg (fun hempty => hplace hempty.2.1), if_neg (fun hempty => hne hempty.2)]
  have hneither : ¬ (h = .name [] ∧ ((portDigits port).isSome = true ∨ user ≠ [] ∨ password ≠ [])) :=
    fun hempty => hname hempty.1
  exact if_neg hneither

/-- Login, host and port are read back from their text. -/
theorem readAuthority_chars
    (hdomains : domains.Lawful)
    {u : Url}
    {h : Host}
    (hspecial : isSpecial u.scheme = true)
    (huser : IsPlainIn .user u.user)
    (hpassword : IsPlainIn .user u.password)
    (hread : h.IsRead domains)
    (hport : IsPort u.scheme u.port)
    (more : Bool) :
    readAuthority domains u.scheme more (u.loginChars ++ (h.chars ++ portChars u.port)) =
      .ok (⟨u.user, u.password, h, u.port⟩, []) := by
  have hat := at_not_mem_place hread u.port
  have hself : escape .user u.user = u.user ∧ escape .user u.password = u.password :=
    ⟨escape_eq_self huser, escape_eq_self hpassword⟩
  by_cases hnone : u.user = [] ∧ u.password = []
  · have hlogin : u.loginChars = [] := if_pos hnone
    rw [hlogin, List.nil_append,
      readAuthority_place hdomains hspecial hread hport (by rw [splitLast_of_not_mem hat]; rfl) rfl, hnone.1,
      hnone.2]
    rfl
  · have hlogin : u.loginChars = loginText u.user u.password ++ ['@'] := if_neg hnone
    have hread' := @readAuthority_place domains hdomains u.scheme
      (loginText u.user u.password ++ '@' :: (h.chars ++ portChars u.port)) more
      (some (loginText u.user u.password)) u.user u.password h u.port hspecial hread hport
      (by rw [splitLast_append hat]; rfl) (splitOnce_loginText (huser.not_mem (by decide)))
    rw [hlogin, List.append_assoc, List.singleton_append, hread', hself.1, hself.2]

/-- What stands in front of a path, with its parts as reading brings them. -/
structure Authority.IsRead (domains : Domains) (scheme : List Char) (a : Authority) : Prop where
  user : IsPlainIn .user a.user
  password : IsPlainIn .user a.password
  host : a.host.IsRead domains
  port : IsPort scheme a.port

theorem isRead_of_readAuthority
    (hdomains : domains.Lawful)
    {scheme s rest : List Char}
    {more : Bool}
    {a : Authority}
    (hspecial : isSpecial scheme = true)
    (h : readAuthority domains scheme more s = .ok (a, rest)) :
    a.IsRead domains scheme := by
  simp only [readAuthority, hspecial, true_and, if_true] at h
  split at h
  · cases h
  split at h
  · cases h
  obtain ⟨host, hhost, h⟩ := exists_of_bind_eq_ok h
  split at h
  · cases h
  obtain ⟨⟨number, behind⟩, hport, h⟩ := exists_of_bind_eq_ok h
  obtain ⟨rfl, -⟩ := Prod.mk.inj (Except.ok.inj h)
  exact ⟨isPlainIn_escape .user _, isPlainIn_escape .user _, Host.isRead_of_ofText hdomains hhost,
    isPort_of_readPort hport⟩

end Url
end AccessAudit
