import AccessAudit.Proofs.Network.AddressText
import AccessAudit.Proofs.Url.Domain
import AccessAudit.Proofs.Url.Escape
import AccessAudit.Url.Host
import Mathlib

/-!
# Hosts are read back

However a host was spelled, its text is in the form that reading brings hosts into: domains are as the reader of
domains has written them, and numbers are dotted.  So the text is read as the same host.
-/

namespace AccessAudit
namespace Url
namespace Host

variable {domains : Domains}

/-! ### Domains -/

/-- A domain as a reader writes it. -/
structure IsDomain (domains : Domains) (text : List Char) : Prop where
  allowed : ∀ c ∈ text, Domain.isForbidden c = false
  again : domains (Text.toBytes (String.ofList text)) = some text

/-- A text without percent signs is what its bytes are. -/
theorem unescape_eq
    {s : List Char}
    (h : '%' ∉ s) :
    unescape s = Text.toBytes (String.ofList s) := by
  induction s with
  | nil => rw [Text.toBytes_ofList]; rfl
  | cons c s ih =>
      obtain ⟨hc, hs⟩ := List.ne_and_not_mem_of_not_mem_cons h
      rw [Text.toBytes_ofList, List.flatMap_cons, ← Text.toBytes_ofList, ← ih hs, unescape.eq_2]
      exact fun _ _ _ hsame _ => hc hsame.symm

theorem IsDomain.not_mem
    {text : List Char}
    (h : IsDomain domains text)
    {c : Char}
    (hc : c ∈ text)
    {signs : List Char}
    (hsigns : signs.all Domain.isForbidden = true) :
    c ∉ signs := fun hmem =>
  absurd ((List.all_eq_true.mp hsigns c hmem).symm.trans (h.allowed c hc)) (by decide)

/-- A domain is read as itself. -/
theorem IsDomain.read
    {text : List Char}
    (h : IsDomain domains text) :
    domains (unescape text) = some text := by
  have hpercent : '%' ∉ text := fun hmem => h.not_mem hmem (by decide) (List.mem_singleton_self '%')
  rw [unescape_eq hpercent, h.again]

/-! ### Numbers -/

/-- The four numbers of a dotted form. -/
def octets (n : Nat) : List Nat :=
  [n / 0x1000000, n / 0x10000 % 256, n / 0x100 % 256, n % 256]

theorem mem_dotted
    {n : Nat}
    {c : Char}
    (h : c ∈ Address.dotted n) :
    c = '.' ∨ c.isDigit = true := by
  rw [Address.dotted_eq_intercalate] at h
  obtain rfl | ⟨l, hl, hc⟩ := Address.mem_intercalate h
  · exact .inl rfl
  · obtain ⟨m, _, rfl⟩ := List.mem_map.mp hl
    exact .inr (Decimal.isDigit_of_mem_digits hc)

/-- Dotted numbers are a domain for every lawful reader. -/
theorem isDomain_dotted
    (hdomains : domains.Lawful)
    (n : Nat) :
    IsDomain domains (Address.dotted n) := by
  have hself := hdomains.numbers fun _ hc => mem_dotted (n := n) hc
  exact ⟨hdomains.allowed hself, hself⟩

theorem pieces_dotted
    (n : Nat) :
    pieces (Address.dotted n) = (octets n).map Decimal.digits := by
  have hsplit : Text.splitAll '.' (Address.dotted n) = (octets n).map Decimal.digits := by
    rw [Address.dotted_eq_intercalate]
    refine List.splitOn_intercalate '.' (fun l hl hdot => ?_) (by simp)
    obtain ⟨m, _, rfl⟩ := List.mem_map.mp hl
    exact absurd (Decimal.isDigit_of_mem_digits hdot) (by decide)
  rw [pieces]
  simp only [hsplit]
  rw [if_neg]
  rintro ⟨hlast, _⟩
  exact Nat.toDigits_ne_nil (Option.some.inj hlast)

theorem number?_digits :
    ∀ n < 256, number? (Decimal.digits n) = some n := by
  decide +kernel

/-- A dotted form is read as its number. -/
theorem ipv4?_dotted
    {n : Nat}
    (h : n < 2 ^ 32) :
    ipv4? (Address.dotted n) = some n := by
  have hnumbers : ((octets n).map Decimal.digits).mapM number? = some (octets n) := by
    simp only [octets, List.map_cons, List.map_nil, List.mapM_cons, List.mapM_nil]
    rw [number?_digits _ (by omega), number?_digits _ (by omega), number?_digits _ (by omega),
      number?_digits _ (by omega)]
    rfl
  have hfirst : n / 0x1000000 < 256 := by omega
  have hsecond : n / 0x10000 % 256 < 256 := Nat.mod_lt _ (by decide)
  have hthird : n / 0x100 % 256 < 256 := Nat.mod_lt _ (by decide)
  have hfourth : n % 256 < 256 := Nat.mod_lt _ (by decide)
  rw [ipv4?, pieces_dotted, hnumbers]
  simp [octets, hfirst, hsecond, hthird, hfourth]
  omega

theorem endsInNumber_dotted
    (n : Nat) :
    endsInNumber (Address.dotted n) = true := by
  have hall : (Decimal.digits (n % 256)).all Char.isDigit = true :=
    List.all_eq_true.mpr fun c hc => Decimal.isDigit_of_mem_digits hc
  have hlast : (pieces (Address.dotted n)).getLast? = some (Decimal.digits (n % 256)) := by
    rw [pieces_dotted]
    rfl
  obtain ⟨c, s, hs⟩ := List.exists_cons_of_ne_nil (show Decimal.digits (n % 256) ≠ [] from Nat.toDigits_ne_nil)
  rw [endsInNumber, hlast]
  rw [hs] at hall ⊢
  simp [hall]

/-! ### Hosts -/

/-- A host in the form in which hosts are read. -/
inductive IsRead (domains : Domains) : Host → Prop
  | name {text : List Char} :
      IsDomain domains text → text ≠ [] → endsInNumber text = false → IsRead domains (.name text)
  | v4 (bits : BitVec 32) : IsRead domains (.v4 bits)
  | v6 (bits : BitVec 128) : IsRead domains (.v6 bits)

theorem isRead_of_ofText
    (hdomains : domains.Lawful)
    {s : List Char}
    {h : Host}
    (hread : Host.ofText domains s = .ok h) :
    h.IsRead domains := by
  rw [Host.ofText] at hread
  split at hread
  · next host hbracketed =>
      subst hread
      rw [bracketed?.eq_def] at hbracketed
      split at hbracketed
      · simp only [Option.some.injEq] at hbracketed
        split at hbracketed
        · split at hbracketed
          · obtain rfl := Except.ok.inj hbracketed
            exact .v6 _
          · cases hbracketed
        · cases hbracketed
      · cases hbracketed
  · split at hread
    · cases hread
    · cases hread
    · next text hne hdomain =>
        split at hread
        · split at hread
          · obtain rfl := Except.ok.inj hread
            exact .v4 _
          · cases hread
        · next hnumber =>
            obtain rfl := Except.ok.inj hread
            exact .name ⟨hdomains.allowed hdomain, hdomains.again hdomain⟩ hne (Bool.eq_false_iff.mpr hnumber)

theorem bracketed?_eq_none
    {text : List Char}
    (h : IsDomain domains text) :
    bracketed? text = none := by
  match text with
  | [] => rfl
  | c :: text =>
      rw [bracketed?.eq_2]
      rintro rest hsame
      obtain ⟨rfl, -⟩ := List.cons.inj hsame
      exact absurd (h.allowed '[' (List.mem_cons_self ..)) (by decide)

/-- The text of a host is read as the host. -/
theorem IsRead.ofText_chars
    (hdomains : domains.Lawful)
    {h : Host}
    (hread : h.IsRead domains) :
    Host.ofText domains h.chars = .ok h := by
  cases hread with
  | @name text hdomain hne hnumber =>
      obtain ⟨c, s, rfl⟩ := List.exists_cons_of_ne_nil hne
      rw [chars, Host.ofText, bracketed?_eq_none hdomain, hdomain.read]
      simp [hnumber]
  | v4 bits =>
      have hdomain := isDomain_dotted hdomains bits.toNat
      obtain ⟨c, s, hs⟩ := List.exists_cons_of_ne_nil
        (show Address.dotted bits.toNat ≠ [] by simp [Address.dotted])
      have hnumber := endsInNumber_dotted bits.toNat
      have hvalue := ipv4?_dotted bits.isLt
      have hself := hdomain.read
      rw [chars, Host.ofText, bracketed?_eq_none hdomain, hself]
      rw [hs] at hnumber hvalue ⊢
      simp [hnumber, hvalue]
  | v6 bits =>
      have hlast : (Address.compressed bits.toNat ++ [']']).getLast? = some ']' := by simp
      rw [chars, Host.ofText, bracketed?]
      simp [Address.grouped?_compressed bits.isLt]

/-- A character that can be seen and at which nothing in front of a path ends. -/
structure IsHostChar (c : Char) : Prop where
  visible : 32 < c.toNat
  noEnd : c ∉ ['/', '\\', '?', '#', '@']

theorem IsDomain.isHostChar
    {text : List Char}
    (h : IsDomain domains text)
    {c : Char}
    (hc : c ∈ text) :
    IsHostChar c := by
  refine ⟨Nat.not_le.mp fun hle => ?_, h.not_mem hc (by decide)⟩
  have hallowed := h.allowed c hc
  simp [Domain.isForbidden, hle] at hallowed

theorem isHostChar_of_isAddressChar
    {c : Char}
    (h : Address.IsAddressChar c) :
    IsHostChar c ∧ c ∉ ['[', ']'] := by
  have hall : ∀ d < 16, 32 < (Nat.digitChar d).toNat ∧ Nat.digitChar d ∉ ['/', '\\', '?', '#', '@'] ∧
      Nat.digitChar d ∉ ['[', ']'] := by decide
  obtain rfl | rfl | ⟨d, hd, rfl⟩ := h
  · exact ⟨⟨by decide, by decide⟩, by decide⟩
  · exact ⟨⟨by decide, by decide⟩, by decide⟩
  · exact ⟨⟨(hall d hd).1, (hall d hd).2.1⟩, (hall d hd).2.2⟩

theorem IsRead.isHostChar
    {h : Host}
    (hread : h.IsRead domains)
    {c : Char}
    (hc : c ∈ h.chars) :
    IsHostChar c := by
  cases hread with
  | name hdomain _ _ => exact hdomain.isHostChar hc
  | v4 bits => exact (isHostChar_of_isAddressChar (Address.isAddressChar_of_mem_dotted hc)).1
  | v6 bits =>
      simp only [chars, List.mem_cons, List.mem_append, List.not_mem_nil, or_false] at hc
      obtain rfl | hc | rfl := hc
      · exact ⟨by decide, by decide⟩
      · exact (isHostChar_of_isAddressChar (Address.isAddressChar_of_mem_compressed hc)).1
      · exact ⟨by decide, by decide⟩

theorem IsRead.chars_ne_nil
    {h : Host}
    (hread : h.IsRead domains) :
    h.chars ≠ [] := by
  cases hread with
  | name _ hne _ => exact hne
  | v4 bits => simp [chars, Address.dotted]
  | v6 bits => exact List.cons_ne_nil _ _

end Host
end Url
end AccessAudit
