import AccessAudit.Proofs.Text.Utf8
import AccessAudit.Url.Path
import Mathlib.Data.Bool.AllAny

/-!
# Escaped texts

A text that has been escaped for a part has no character left that the part escapes, so escaping it once more
changes nothing.
-/

namespace AccessAudit
namespace Url

/-- The characters of escapes. -/
def escapeSigns : List Char :=
  "%0123456789ABCDEF".toList

theorem mem_escapeSigns_of_mem_escapeByte
    {b : Nat}
    (hb : b < 256)
    {c : Char}
    (h : c ∈ escapeByte b) :
    c ∈ escapeSigns := by
  have hdigit : ∀ n < 16, (Nat.digitChar n).toUpper ∈ escapeSigns := by decide
  simp only [escapeByte, List.mem_cons, List.not_mem_nil, or_false] at h
  rcases h with rfl | rfl | rfl
  · decide
  · exact hdigit _ (by omega)
  · exact hdigit _ (by omega)

/-- No part escapes what escapes are made of. -/
theorem escapes_escapeSigns
    (p : Part) :
    ∀ c ∈ escapeSigns, p.escapes c = false := by
  refine List.all_iff_forall_prop.mp ?_
  cases p with
  | user | path | bare | fragment => decide
  | query special => cases special <;> decide

/-- A text that a part leaves as it is. -/
def IsPlainIn (p : Part) (s : List Char) : Prop :=
  ∀ c ∈ s, p.escapes c = false

theorem isPlainIn_escape
    (p : Part)
    (s : List Char) :
    IsPlainIn p (escape p s) := by
  intro c h
  obtain ⟨d, _, hc⟩ := List.mem_flatMap.mp h
  rw [escapeChar] at hc
  split at hc
  · obtain ⟨b, hb, hc⟩ := List.mem_flatMap.mp hc
    exact escapes_escapeSigns p c (mem_escapeSigns_of_mem_escapeByte (Text.lt_of_mem_toBytes hb) hc)
  · next hd =>
      obtain rfl := List.mem_singleton.mp hc
      exact Bool.eq_false_iff.mpr hd

theorem escape_eq_self
    {p : Part}
    {s : List Char}
    (h : IsPlainIn p s) :
    escape p s = s := by
  induction s with
  | nil => rfl
  | cons c s ih =>
      have hc := h c (List.mem_cons_self ..)
      rw [escape, List.flatMap_cons, escapeChar, hc, ← escape, ih fun d hd => h d (List.mem_cons_of_mem _ hd)]
      rfl

/-- Characters that a part leaves as they are can be seen. -/
theorem lt_toNat_of_escapes
    {p : Part}
    (hp : ' ' ∈ p.signs)
    {c : Char}
    (h : p.escapes c = false) :
    32 < c.toNat := by
  simp only [Part.escapes, Bool.or_eq_false_iff, decide_eq_false_iff_not, Nat.not_lt] at h
  refine Nat.lt_of_le_of_ne h.1.1 fun hsame => ?_
  obtain rfl : c = ' ' := Char.toNat_inj.mp hsame.symm
  rw [List.contains_iff_mem.mpr hp] at h
  cases h.2

theorem IsPlainIn.not_mem
    {p : Part}
    {s : List Char}
    (h : IsPlainIn p s)
    {c : Char}
    (hc : p.escapes c = true) :
    c ∉ s := by
  intro hmem
  rw [h c hmem] at hc
  cases hc

end Url
end AccessAudit
