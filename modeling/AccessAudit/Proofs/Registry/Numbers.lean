import AccessAudit.Proofs.Registry.Strings

/-!
# Numbers as they are written

A number has a whole part without a surplus zero, and possibly a sign, a fraction and an exponent.  Where no
character follows that could go on with it, the reader finds the number up to its end.
-/

namespace AccessAudit
namespace Registry
namespace Json

/-- Digits, at least one. -/
def IsDigits (s : List Char) : Prop :=
  s ≠ [] ∧ ∀ c ∈ s, c.isDigit = true

/-- A whole number, which starts with a zero only if it is one. -/
def IsWhole (s : List Char) : Prop :=
  IsDigits s ∧ ¬ (s.head? = some '0' ∧ 1 < s.length)

/-- A fraction that is there or not. -/
inductive IsFraction : Bool → List Char → Prop
  | absent : IsFraction false []
  | present {ds : List Char} : IsDigits ds → IsFraction true ('.' :: ds)

/-- An exponent that is there or not. -/
inductive IsExponent : Bool → List Char → Prop
  | absent : IsExponent false []
  | present {e : Char} {sign ds : List Char} :
      e = 'e' ∨ e = 'E' → sign ∈ [[], ['+'], ['-']] → IsDigits ds → IsExponent true (e :: (sign ++ ds))

/-- A number as it is written.  Digits alone are a natural number. -/
inductive IsNumber : Json → List Char → Prop
  | natural {ds : List Char} : IsWhole ds → IsNumber (natural (Nat.ofDigitChars 10 ds 0)) ds
  | number {sign whole fraction exponent : List Char} {hasFraction hasExponent : Bool} :
      sign ∈ [[], ['-']] → IsWhole whole → IsFraction hasFraction fraction →
        IsExponent hasExponent exponent → sign ≠ [] ∨ hasFraction = true ∨ hasExponent = true →
          IsNumber number (sign ++ whole ++ fraction ++ exponent)

/-- A text that no number goes on with: it is empty or starts with a blank or with the end of a part. -/
def Stops (s : List Char) : Prop :=
  ∀ c ∈ s.head?, isBlank c = true ∨ c = ',' ∨ c = ']' ∨ c = '}'

theorem stops_nil : Stops [] := by
  simp [Stops]

theorem stops_cons
    {c : Char}
    (h : isBlank c = true ∨ c = ',' ∨ c = ']' ∨ c = '}')
    (s : List Char) :
    Stops (c :: s) := by
  simpa [Stops] using h

theorem Stops.gap_append
    {gap s : List Char}
    (hgap : IsGap gap)
    (h : Stops s) :
    Stops (gap ++ s) := by
  cases gap with
  | nil => exact h
  | cons c gap => exact stops_cons (.inl (hgap c (List.mem_cons_self ..))) (gap ++ s)

/-- Where a text stops, there is no digit, point or letter of an exponent. -/
theorem Stops.head
    {c : Char}
    {s : List Char}
    (h : Stops (c :: s)) :
    c.isDigit = false ∧ c ≠ '.' ∧ ¬ (c = 'e' ∨ c = 'E') := by
  have hc : isBlank c = true ∨ c = ',' ∨ c = ']' ∨ c = '}' := h c rfl
  simp only [isBlank, Bool.or_eq_true, beq_iff_eq] at hc
  rcases hc with (((rfl | rfl) | rfl) | rfl) | rfl | rfl | rfl <;> decide

/-! ### Digits -/

theorem digits_append
    {ds rest : List Char}
    (hds : IsDigits ds)
    (hrest : ∀ c ∈ rest.head?, c.isDigit = false) :
    digits (ds ++ rest) = some (ds, rest) := by
  have htake : rest.takeWhile Char.isDigit = [] := by
    cases rest with
    | nil => rfl
    | cons c rest => simp [hrest c rfl]
  have hdrop : rest.dropWhile Char.isDigit = rest := by
    cases rest with
    | nil => rfl
    | cons c rest => simp [hrest c rfl]
  rw [digits, List.takeWhile_append_of_pos hds.2, List.dropWhile_append_of_pos hds.2, htake, hdrop,
    List.append_nil, if_neg hds.1]

theorem isDigits_of_digits
    {s ds rest : List Char}
    (h : digits s = some (ds, rest)) :
    s = ds ++ rest ∧ IsDigits ds := by
  rw [digits] at h
  split at h
  · cases h
  · next hne =>
      simp only [Option.some.injEq, Prod.mk.injEq] at h
      obtain ⟨rfl, rfl⟩ := h
      exact ⟨List.takeWhile_append_dropWhile.symm, hne, fun c hc => List.mem_takeWhile_imp hc⟩

theorem wholeDigits_append
    {ds rest : List Char}
    (hds : IsWhole ds)
    (hrest : ∀ c ∈ rest.head?, c.isDigit = false) :
    wholeDigits (ds ++ rest) = some (ds, rest) := by
  simp [wholeDigits, digits_append hds.1 hrest, hds.2]

theorem isWhole_of_wholeDigits
    {s ds rest : List Char}
    (h : wholeDigits s = some (ds, rest)) :
    s = ds ++ rest ∧ IsWhole ds := by
  simp only [wholeDigits, Option.bind_eq_bind, Option.bind_eq_some_iff, Prod.exists] at h
  obtain ⟨ds', rest', hdigits, h⟩ := h
  split at h
  · cases h
  · next hzero =>
      simp only [Option.some.injEq, Prod.mk.injEq] at h
      obtain ⟨rfl, rfl⟩ := h
      obtain ⟨hs, hds⟩ := isDigits_of_digits hdigits
      exact ⟨hs, hds, hzero⟩

/-! ### Fractions and exponents -/

theorem afterFraction_append
    {present : Bool}
    {fraction rest : List Char}
    (h : IsFraction present fraction)
    (hrest : ∀ c ∈ rest.head?, c.isDigit = false ∧ c ≠ '.') :
    afterFraction (fraction ++ rest) = some (present, rest) := by
  cases h with
  | absent =>
      rw [List.nil_append, afterFraction.eq_2]
      rintro rest' rfl
      exact (hrest '.' rfl).2 rfl
  | present hds =>
      rw [List.cons_append, afterFraction, digits_append hds fun c hc => (hrest c hc).1]
      rfl

theorem isFraction_of_afterFraction
    {present : Bool}
    {s rest : List Char}
    (h : afterFraction s = some (present, rest)) :
    ∃ fraction, s = fraction ++ rest ∧ IsFraction present fraction := by
  rw [afterFraction.eq_def] at h
  split at h
  · simp only [Option.map_eq_some_iff, Prod.mk.injEq, Prod.exists] at h
    obtain ⟨ds, rest', hdigits, rfl, rfl⟩ := h
    obtain ⟨rfl, hds⟩ := isDigits_of_digits hdigits
    exact ⟨'.' :: ds, rfl, .present hds⟩
  · simp only [Option.some.injEq, Prod.mk.injEq] at h
    obtain ⟨rfl, rfl⟩ := h
    exact ⟨[], rfl, .absent⟩

theorem afterExponent_append
    {present : Bool}
    {exponent rest : List Char}
    (h : IsExponent present exponent)
    (hrest : Stops rest) :
    afterExponent (exponent ++ rest) = some (present, rest) := by
  cases h with
  | absent =>
      cases rest with
      | nil => rfl
      | cons c rest => rw [List.nil_append, afterExponent, if_neg hrest.head.2.2]
  | @present e sign ds he hsign hds =>
      have hdigits : digits (ds ++ rest) = some (ds, rest) := by
        refine digits_append hds fun c hc => ?_
        obtain ⟨rest, rfl⟩ := List.head?_eq_some_iff.mp hc
        exact hrest.head.1
      have hhead : (ds ++ rest).head? ≠ some '+' ∧ (ds ++ rest).head? ≠ some '-' := by
        obtain ⟨d, ds, rfl⟩ := List.exists_cons_of_ne_nil hds.1
        have hd := hds.2 d (List.mem_cons_self ..)
        constructor
        all_goals
          rintro hsame
          obtain rfl := Option.some.inj hsame
          revert hd
          decide
      rw [List.cons_append, afterExponent, if_pos he, List.append_assoc]
      simp only [List.mem_cons, List.not_mem_nil, or_false] at hsign
      rcases hsign with rfl | rfl | rfl
      · simp only [List.nil_append, if_neg (not_or.mpr hhead), hdigits]
        rfl
      · simp [hdigits]
      · simp [hdigits]

theorem isExponent_of_afterExponent
    {present : Bool}
    {s rest : List Char}
    (h : afterExponent s = some (present, rest)) :
    ∃ exponent, s = exponent ++ rest ∧ IsExponent present exponent := by
  match s with
  | [] =>
      simp only [afterExponent, Option.some.injEq, Prod.mk.injEq] at h
      obtain ⟨rfl, rfl⟩ := h
      exact ⟨[], rfl, .absent⟩
  | c :: s =>
      rw [afterExponent] at h
      split at h
      · next he =>
          simp only [Option.map_eq_some_iff, Prod.mk.injEq, Prod.exists] at h
          obtain ⟨ds, rest', hdigits, rfl, rfl⟩ := h
          obtain ⟨hrest, hds⟩ := isDigits_of_digits hdigits
          have hsign : ∃ sign ∈ [[], ['+'], ['-']],
              s = sign ++ if s.head? = some '+' ∨ s.head? = some '-' then s.drop 1 else s := by
            match s with
            | [] => exact ⟨[], by simp, rfl⟩
            | d :: s =>
                by_cases hd : d = '+' ∨ d = '-'
                · exact ⟨[d], by rcases hd with rfl | rfl <;> simp, by simp [hd]⟩
                · exact ⟨[], by simp, by simp [hd]⟩
          obtain ⟨sign, hmem, hs⟩ := hsign
          rw [hrest] at hs
          exact ⟨c :: (sign ++ ds), by rw [hs]; simp, .present he hmem hds⟩
      · simp only [Option.some.injEq, Prod.mk.injEq] at h
        obtain ⟨rfl, rfl⟩ := h
        exact ⟨[], rfl, .absent⟩

/-! ### Numbers -/

/-- A whole number starts with a digit. -/
theorem IsWhole.exists_cons
    {ds : List Char}
    (h : IsWhole ds) :
    ∃ d rest, ds = d :: rest ∧ d.isDigit = true := by
  obtain ⟨d, rest, rfl⟩ := List.exists_cons_of_ne_nil h.1.1
  exact ⟨d, rest, rfl, h.1.2 d (List.mem_cons_self ..)⟩

/-- A number starts with a digit or a sign. -/
theorem IsNumber.exists_cons
    {j : Json}
    {s : List Char}
    (h : IsNumber j s) :
    ∃ c t, s = c :: t ∧ (c.isDigit = true ∨ c = '-') := by
  cases h with
  | natural hwhole =>
      obtain ⟨d, ds, rfl, hd⟩ := hwhole.exists_cons
      exact ⟨d, ds, rfl, .inl hd⟩
  | @number sign _ fraction exponent _ _ hsign hwhole _ _ _ =>
      obtain ⟨d, ds, rfl, hd⟩ := hwhole.exists_cons
      simp only [List.mem_cons, List.not_mem_nil, or_false] at hsign
      rcases hsign with rfl | rfl
      · exact ⟨d, ds ++ fraction ++ exponent, rfl, .inl hd⟩
      · exact ⟨'-', (d :: ds) ++ fraction ++ exponent, rfl, .inr rfl⟩

/-- What starts a number is no blank and starts nothing else. -/
theorem ne_of_starts_number
    {c d : Char}
    (h : c.isDigit = true ∨ c = '-')
    (hd : (d.isDigit || d == '-') = false) :
    c ≠ d := by
  rintro rfl
  simp only [Bool.or_eq_false_iff, beq_eq_false_iff_ne] at hd
  rcases h with h | h
  · rw [h] at hd
    cases hd.1
  · exact hd.2 h

theorem isBlank_of_starts_number
    {c : Char}
    (h : c.isDigit = true ∨ c = '-') :
    isBlank c = false := by
  simp [isBlank, @ne_of_starts_number c ' ' h rfl, @ne_of_starts_number c '\n' h rfl,
    @ne_of_starts_number c '\t' h rfl, @ne_of_starts_number c '\r' h rfl]

theorem ne_minus_of_isDigit
    {c : Char}
    (h : c.isDigit = true) :
    c ≠ '-' := by
  rintro rfl
  revert h
  decide

/-- The characters after a fraction or an exponent are no digits. -/
theorem IsExponent.not_digit
    {present : Bool}
    {exponent rest : List Char}
    (h : IsExponent present exponent)
    (hrest : Stops rest) :
    ∀ c ∈ (exponent ++ rest).head?, c.isDigit = false ∧ c ≠ '.' := by
  intro c hc
  cases h with
  | absent =>
      obtain ⟨tail, rfl⟩ := List.head?_eq_some_iff.mp hc
      exact ⟨hrest.head.1, hrest.head.2.1⟩
  | present he _ _ =>
      obtain rfl := Option.some.inj hc
      rcases he with rfl | rfl <;> decide

theorem IsFraction.not_digit
    {present present' : Bool}
    {fraction exponent rest : List Char}
    (h : IsFraction present fraction)
    (hexponent : IsExponent present' exponent)
    (hrest : Stops rest) :
    ∀ c ∈ (fraction ++ (exponent ++ rest)).head?, c.isDigit = false := by
  cases h with
  | absent => exact fun c hc => (hexponent.not_digit hrest c hc).1
  | present _ =>
      intro c hc
      obtain rfl := Option.some.inj hc
      decide

/-- A number is read up to its end where no character goes on with it. -/
theorem numeric_append
    {j : Json}
    {s rest : List Char}
    (h : IsNumber j s)
    (hrest : Stops rest) :
    numeric (s ++ rest) = some (j, rest) := by
  cases h with
  | natural hwhole =>
      obtain ⟨d, ds, rfl, hd⟩ := hwhole.exists_cons
      have hdigits := wholeDigits_append hwhole ((IsFraction.absent).not_digit .absent hrest)
      have hfraction := afterFraction_append .absent ((IsExponent.absent).not_digit hrest)
      have hexponent := afterExponent_append .absent hrest
      simp only [List.nil_append, List.cons_append] at hdigits hfraction hexponent
      simp [numeric, ne_minus_of_isDigit hd, hdigits, hfraction, hexponent]
  | @number sign whole fraction exponent hasFraction hasExponent hsign hwhole hfraction hexponent hsome =>
      have hread : wholeDigits (whole ++ (fraction ++ (exponent ++ rest))) =
          some (whole, fraction ++ (exponent ++ rest)) :=
        wholeDigits_append hwhole (hfraction.not_digit hexponent hrest)
      have hfraction := afterFraction_append hfraction (hexponent.not_digit hrest)
      have hexponent := afterExponent_append hexponent hrest
      obtain ⟨d, ds, rfl, hd⟩ := hwhole.exists_cons
      rw [List.cons_append] at hread
      simp only [List.mem_cons, List.not_mem_nil, or_false] at hsign
      simp only [List.append_assoc]
      rcases hsign with rfl | rfl
      · have hplain : hasFraction = true ∨ hasExponent = true := by simpa using hsome
        rcases hplain with rfl | rfl <;> simp [numeric, ne_minus_of_isDigit hd, hread, hfraction, hexponent]
      · simp [numeric, hread, hfraction, hexponent]

theorem isNumber_of_numeric
    {j : Json}
    {s rest : List Char}
    (h : numeric s = some (j, rest)) :
    ∃ text, s = text ++ rest ∧ IsNumber j text := by
  have hsign : ∃ sign ∈ [[], ['-']], (sign ≠ [] ↔ s.head? = some '-') ∧
      s = sign ++ if s.head? = some '-' then s.drop 1 else s := by
    match s with
    | [] => exact ⟨[], by simp, by simp, rfl⟩
    | c :: s =>
        by_cases hc : c = '-'
        · exact ⟨['-'], by simp, by simp [hc], by simp [hc]⟩
        · exact ⟨[], by simp, by simp [hc], by simp [hc]⟩
  obtain ⟨sign, hmem, hminus, hs⟩ := hsign
  simp only [numeric, Option.bind_eq_bind, Option.bind_eq_some_iff, Option.pure_def, Option.some.injEq,
    Prod.mk.injEq, Prod.exists] at h
  obtain ⟨ds, s₁, hreadWhole, hasFraction, s₂, hreadFraction, hasExponent, s₃, hreadExponent, rfl, rfl⟩ := h
  obtain ⟨hrest, hwhole⟩ := isWhole_of_wholeDigits hreadWhole
  obtain ⟨fraction, rfl, hfraction⟩ := isFraction_of_afterFraction hreadFraction
  obtain ⟨exponent, rfl, hexponent⟩ := isExponent_of_afterExponent hreadExponent
  rw [hrest] at hs
  refine ⟨sign ++ ds ++ fraction ++ exponent, by rw [hs]; simp, ?_⟩
  split
  · next hplain =>
      simp only [Bool.and_eq_true, Bool.not_eq_true', decide_eq_false_iff_not] at hplain
      obtain ⟨⟨hnone, rfl⟩, rfl⟩ := hplain
      obtain rfl : sign = [] := not_not.mp fun hne => hnone (hminus.mp hne)
      cases hfraction
      cases hexponent
      simpa using IsNumber.natural hwhole
  · next hplain =>
      refine .number hmem hwhole hfraction hexponent ?_
      by_contra hnone
      simp only [not_or, ne_eq, not_not, Bool.not_eq_true] at hnone
      obtain ⟨rfl, rfl, rfl⟩ := hnone
      exact hplain (by simpa using hminus)

end Json
end Registry
end AccessAudit
