import AccessAudit.Registry.Json
import Mathlib.Data.List.DropRight

/-!
# Parts of documents as they are written

Strings may spell their characters in several ways, numbers have a whole part and possibly a fraction and an
exponent, and blanks may stand between the parts of a document.  Each of these is told as a property of a
text, and the readers find what has the property: all of it, and nothing else.
-/

namespace AccessAudit
namespace Registry
namespace Json

/-! ### Blanks -/

/-- A text of blanks. -/
def IsGap (s : List Char) : Prop :=
  ∀ c ∈ s, isBlank c = true

theorem isGap_nil : IsGap [] :=
  nofun

theorem skip_gap_append
    {gap : List Char}
    (h : IsGap gap)
    (s : List Char) :
    skip (gap ++ s) = skip s :=
  List.dropWhile_append_of_pos h

theorem skip_of_not_blank
    {c : Char}
    (h : isBlank c = false)
    (s : List Char) :
    skip (c :: s) = c :: s := by
  simp [skip, h]

@[simp] theorem skip_skip
    (s : List Char) :
    skip (skip s) = skip s :=
  List.dropWhile_idempotent isBlank s

/-- Every text is a gap and what is left when its blanks are skipped. -/
theorem exists_gap
    (s : List Char) :
    ∃ gap, IsGap gap ∧ s = gap ++ skip s :=
  ⟨s.takeWhile isBlank, fun _ hc => List.mem_takeWhile_imp hc, List.takeWhile_append_dropWhile.symm⟩

theorem skip_append
    {s t : List Char}
    {c : Char}
    (h : skip s = c :: t)
    (more : List Char) :
    skip (s ++ more) = c :: (t ++ more) := by
  have hne : (s.dropWhile isBlank).isEmpty = false := by
    rw [show s.dropWhile isBlank = c :: t from h]
    rfl
  rw [skip, List.dropWhile_append, hne, if_neg (by simp), ← skip, h, List.cons_append]

/-! ### Strings -/

/-- The characters between the quotes of a string, and the code units that they stand for: characters
themselves, letters behind a backslash, and four hexadecimal digits behind a backslash and a `u`. -/
inductive Spells : List Nat → List Char → Prop
  | nil : Spells [] []
  | plain {c : Char} {units : List Nat} {s : List Char} :
      c ≠ '"' → c ≠ '\\' → 32 ≤ c.toNat → Spells units s → Spells (c.toNat :: units) (c :: s)
  | escape {e : Char} {n : Nat} {units : List Nat} {s : List Char} :
      escaped e = some n → Spells units s → Spells (n :: units) ('\\' :: e :: s)
  | code {ds : List Char} {n : Nat} {units : List Nat} {s : List Char} :
      fourDigits ds = some (n, []) → Spells units s → Spells (n :: units) ('\\' :: 'u' :: (ds ++ s))

/-- A string as it is written, and its text. -/
def IsString (text : Option String) (s : List Char) : Prop :=
  ∃ units spelling, Spells units spelling ∧ s = '"' :: (spelling ++ ['"']) ∧
    text = (textOfUnits units).map String.ofList

theorem IsString.exists_cons
    {text : Option String}
    {s : List Char}
    (h : IsString text s) :
    ∃ t, s = '"' :: t := by
  obtain ⟨_, spelling, _, rfl, _⟩ := h
  exact ⟨spelling ++ ['"'], rfl⟩

theorem fourDigits_eq_some_iff
    {s rest : List Char}
    {n : Nat} :
    fourDigits s = some (n, rest) ↔ ∃ ds, s = ds ++ rest ∧ fourDigits ds = some (n, []) := by
  constructor
  · intro h
    match s with
    | a :: b :: c :: d :: s =>
        simp only [fourDigits, Option.bind_eq_bind, Option.bind_eq_some_iff, Option.pure_def,
          Option.some.injEq, Prod.mk.injEq] at h
        obtain ⟨w, hw, x, hx, y, hy, z, hz, rfl, rfl⟩ := h
        exact ⟨[a, b, c, d], rfl, by simp [fourDigits, hw, hx, hy, hz]⟩
  · rintro ⟨ds, rfl, h⟩
    match ds with
    | a :: b :: c :: d :: ds =>
        simp only [fourDigits, Option.bind_eq_bind, Option.bind_eq_some_iff, Option.pure_def,
          Option.some.injEq, Prod.mk.injEq] at h
        obtain ⟨w, hw, x, hx, y, hy, z, hz, rfl, rfl⟩ := h
        simp [fourDigits, hw, hx, hy, hz]

theorem Spells.length_le
    {units : List Nat}
    {s : List Char}
    (h : Spells units s) :
    units.length ≤ s.length := by
  induction h with
  | nil => exact Nat.le_refl 0
  | plain _ _ _ _ ih => simpa using ih
  | escape _ _ ih =>
      simp only [List.length_cons]
      omega
  | code _ _ ih =>
      simp only [List.length_cons, List.length_append]
      omega

theorem unitsUpTo_quote
    (fuel : Nat)
    (s : List Char) :
    unitsUpTo (fuel + 1) ('"' :: s) = some ([], s) := by
  rw [unitsUpTo.eq_def]
  rfl

theorem unitsUpTo_plain
    (fuel : Nat)
    {c : Char}
    (hquote : c ≠ '"')
    (hslash : c ≠ '\\')
    (hcode : 32 ≤ c.toNat)
    (s : List Char) :
    unitsUpTo (fuel + 1) (c :: s) = (unitsUpTo fuel s).map fun read => (c.toNat :: read.1, read.2) := by
  rw [unitsUpTo.eq_def]
  simp only [if_neg hquote, if_neg hslash, if_neg (Nat.not_lt.mpr hcode)]
  cases unitsUpTo fuel s <;> rfl

theorem unitsUpTo_escape
    (fuel : Nat)
    {e : Char}
    {n : Nat}
    (he : escaped e = some n)
    (s : List Char) :
    unitsUpTo (fuel + 1) ('\\' :: e :: s) = (unitsUpTo fuel s).map fun read => (n :: read.1, read.2) := by
  have hu : e ≠ 'u' := by
    rintro rfl
    cases he
  rw [unitsUpTo.eq_4 fuel _ e s hu, if_neg (by decide), if_pos rfl, he]
  cases unitsUpTo fuel s <;> simp

theorem unitsUpTo_code
    (fuel : Nat)
    {ds : List Char}
    {n : Nat}
    (hds : fourDigits ds = some (n, []))
    (s : List Char) :
    unitsUpTo (fuel + 1) ('\\' :: 'u' :: (ds ++ s)) =
      (unitsUpTo fuel s).map fun read => (n :: read.1, read.2) := by
  rw [unitsUpTo.eq_3, if_neg (by decide), if_pos rfl, fourDigits_eq_some_iff.mpr ⟨ds, rfl, hds⟩]
  cases h : unitsUpTo fuel s <;> simp [h]

theorem unitsUpTo_of_spells
    {units : List Nat}
    {s : List Char}
    (h : Spells units s)
    {fuel : Nat}
    (hfuel : units.length < fuel)
    (rest : List Char) :
    unitsUpTo fuel (s ++ '"' :: rest) = some (units, rest) := by
  induction h generalizing fuel with
  | nil =>
      obtain ⟨fuel, rfl⟩ := Nat.exists_eq_add_one_of_ne_zero (Nat.ne_of_gt hfuel)
      exact unitsUpTo_quote fuel rest
  | plain hquote hslash hcode _ ih =>
      obtain ⟨fuel, rfl⟩ := Nat.exists_eq_add_one_of_ne_zero (Nat.ne_of_gt (Nat.zero_lt_of_lt hfuel))
      rw [List.cons_append, unitsUpTo_plain fuel hquote hslash hcode, ih (Nat.lt_of_succ_lt_succ hfuel)]
      rfl
  | escape he _ ih =>
      obtain ⟨fuel, rfl⟩ := Nat.exists_eq_add_one_of_ne_zero (Nat.ne_of_gt (Nat.zero_lt_of_lt hfuel))
      rw [List.cons_append, List.cons_append, unitsUpTo_escape fuel he, ih (Nat.lt_of_succ_lt_succ hfuel)]
      rfl
  | code hds _ ih =>
      obtain ⟨fuel, rfl⟩ := Nat.exists_eq_add_one_of_ne_zero (Nat.ne_of_gt (Nat.zero_lt_of_lt hfuel))
      rw [List.cons_append, List.cons_append, List.append_assoc, unitsUpTo_code fuel hds,
        ih (Nat.lt_of_succ_lt_succ hfuel)]
      rfl

theorem spells_of_unitsUpTo
    {fuel : Nat}
    {units : List Nat}
    {s rest : List Char}
    (h : unitsUpTo fuel s = some (units, rest)) :
    ∃ spelling, s = spelling ++ '"' :: rest ∧ Spells units spelling := by
  induction fuel generalizing s units with
  | zero => cases h
  | succ fuel ih =>
      rw [unitsUpTo.eq_def] at h
      match s with
      | c :: s =>
          simp only at h
          split at h
          · next hquote =>
              simp only [Option.some.injEq, Prod.mk.injEq] at h
              obtain ⟨rfl, rfl⟩ := h
              exact ⟨[], by rw [hquote]; rfl, .nil⟩
          split at h
          · next hquote hslash =>
              subst hslash
              split at h
              · simp only [Option.bind_eq_bind, Option.bind_eq_some_iff, Option.pure_def, Option.some.injEq,
                  Prod.mk.injEq, Prod.exists] at h
                obtain ⟨n, s', hread, units', rest', hunits, rfl, rfl⟩ := h
                obtain ⟨spelling, rfl, hspells⟩ := ih hunits
                obtain ⟨ds, rfl, hds⟩ := fourDigits_eq_some_iff.mp hread
                exact ⟨'\\' :: 'u' :: (ds ++ spelling), by simp, .code hds hspells⟩
              · simp only [Option.bind_eq_bind, Option.bind_eq_some_iff, Option.pure_def, Option.some.injEq,
                  Prod.mk.injEq, Prod.exists] at h
                obtain ⟨n, he, units', rest', hunits, rfl, rfl⟩ := h
                obtain ⟨spelling, rfl, hspells⟩ := ih hunits
                exact ⟨_, by rw [List.cons_append, List.cons_append], .escape he hspells⟩
              · cases h
          split at h
          · cases h
          · next hquote hslash hcode =>
              simp only [Option.bind_eq_bind, Option.bind_eq_some_iff, Option.pure_def, Option.some.injEq,
                Prod.mk.injEq, Prod.exists] at h
              obtain ⟨units', rest', hunits, rfl, rfl⟩ := h
              obtain ⟨spelling, rfl, hspells⟩ := ih hunits
              exact ⟨c :: spelling, rfl, .plain hquote hslash (Nat.not_lt.mp hcode) hspells⟩

/-- What is read behind an opening quote is a string up to its closing quote. -/
theorem quoted_eq_some_iff
    {text : Option String}
    {s rest : List Char} :
    quoted s = some (text, rest) ↔ ∃ string, '"' :: s = string ++ rest ∧ IsString text string := by
  simp only [quoted, Option.bind_eq_bind, Option.bind_eq_some_iff, Option.pure_def, Option.some.injEq,
    Prod.mk.injEq, Prod.exists]
  constructor
  · rintro ⟨units, rest', hunits, rfl, rfl⟩
    obtain ⟨spelling, rfl, hspells⟩ := spells_of_unitsUpTo hunits
    exact ⟨'"' :: (spelling ++ ['"']), by simp, units, spelling, hspells, rfl, rfl⟩
  · rintro ⟨string, hs, units, spelling, hspells, rfl, rfl⟩
    obtain rfl : s = spelling ++ '"' :: rest := by simpa using hs
    have hlength := hspells.length_le
    refine ⟨units, rest, unitsUpTo_of_spells hspells ?_ rest, rfl, rfl⟩
    rw [List.length_append]
    omega

end Json
end Registry
end AccessAudit
