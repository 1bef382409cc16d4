import AccessAudit.Enrichment.Cache
import Mathlib.Algebra.BigOperators.Group.List.Lemmas
import Mathlib.Algebra.GroupWithZero.Nat
import Mathlib.Data.String.Basic

/-!
# What a question does to a cache

A question put to a cache either leaves it alone or asks the source about one
address that the cache does not know.  What a cache once knows it keeps, and
two more things survive both steps: no address is remembered twice, and the
set of countries is that of the records.  From these it follows that the counts
of the countries are right.
-/

namespace AccessAudit

/-- The record in an answer. -/
def Answer.record? : Answer → Option Record
  | .record r => some r
  | .nothing | .failure _ => none

namespace Cache

variable {σ : Type}

/-- A cache that remembers nothing yet. -/
def fresh (ask : σ → Address → Answer × σ) (source : σ) : Cache σ :=
  { ask := ask, source := source }

/-- The country codes of the remembered records. -/
def codes (c : Cache σ) : List String :=
  c.records.map fun entry => entry.2.country

/-- The cache after its source was asked about an address. -/
def asked (c : Cache σ) (a : Address) : Cache σ :=
  let (answer, source) := c.ask c.source a
  match answer.record? with
  | some r => { c with source := source }.remember a r
  | none => { c with source := source }

/-- What a question can do to a cache. -/
inductive Step (c : Cache σ) : Cache σ → Prop
  | known : Step c c
  | asked {a : Address} (ha : c.records.lookup a = none) : Step c (c.asked a)

section Lookup

variable {c : Cache σ} {a : Address}

theorem lookup_of_known
    {r : Record}
    (h : c.records.lookup a = some r) :
    c.lookup a = (some r, c) := by
  simp only [lookup, h]

theorem lookup_of_unknown
    (h : c.records.lookup a = none) :
    c.lookup a = ((c.ask c.source a).1.record?, c.asked a) := by
  simp only [lookup, h, asked]
  cases (c.ask c.source a).1 with
  | record r => rfl
  | nothing => rfl
  | failure links => rfl

end Lookup

@[simp] theorem ask_asked
    (c : Cache σ)
    (a : Address) :
    (c.asked a).ask = c.ask := by
  unfold asked
  cases h : (c.ask c.source a).1.record? <;> simp [h, remember]

@[simp] theorem source_asked
    (c : Cache σ)
    (a : Address) :
    (c.asked a).source = (c.ask c.source a).2 := by
  unfold asked
  cases h : (c.ask c.source a).1.record? <;> simp [h, remember]

theorem records_asked
    (c : Cache σ)
    (a : Address) :
    (c.asked a).records =
      c.records ++ ((c.ask c.source a).1.record?.map fun r => (a, r)).toList := by
  unfold asked
  cases h : (c.ask c.source a).1.record? <;> simp [h, remember]

/-- What is remembered after the source was asked about one address. -/
theorem lookup_records_asked
    (c : Cache σ)
    (a b : Address) :
    (c.asked a).records.lookup b =
      (c.records.lookup b).or (if b = a then (c.ask c.source a).1.record? else none) := by
  rw [records_asked, List.lookup_append]
  congr 1
  cases (c.ask c.source a).1.record? with
  | none => simp
  | some r =>
      by_cases hba : b = a
      · simp [hba]
      · have hfalse : (b == a) = false := by simpa using hba
        simp [List.lookup_cons, hfalse, hba]

/-- Without a record the cache is what it was, but for the state of its source. -/
theorem asked_of_none
    {c : Cache σ}
    {a : Address}
    (h : (c.ask c.source a).1.record? = none) :
    c.asked a = { c with source := (c.ask c.source a).2 } := by
  simp [asked, h]

/-- What is remembered of an address stays remembered. -/
theorem lookup_step
    {c after : Cache σ}
    {a : Address}
    {r : Record}
    (h : c.records.lookup a = some r)
    (hstep : Step c after) :
    after.records.lookup a = some r := by
  cases hstep with
  | known => exact h
  | @asked b hb =>
      rw [records_asked, List.lookup_append, h]
      rfl

/-! ### The set of countries -/

theorem mem_insertCountry
    {country code : String}
    {countries : List String} :
    country ∈ insertCountry code countries ↔ country = code ∨ country ∈ countries := by
  induction countries with
  | nil => simp [insertCountry]
  | cons c rest ih =>
      unfold insertCountry
      split
      · simp
      · split
        · next heq => simp [heq]
        · simp only [List.mem_cons, ih]
          exact or_left_comm

theorem ascending_insertCountry
    (code : String)
    {countries : List String}
    (h : countries.Pairwise (· < ·)) :
    (insertCountry code countries).Pairwise (· < ·) := by
  induction countries with
  | nil => simp [insertCountry]
  | cons c rest ih =>
      obtain ⟨hc, hrest⟩ := List.pairwise_cons.mp h
      unfold insertCountry
      split
      · next hlt =>
          refine List.pairwise_cons.mpr ⟨?_, h⟩
          intro x hx
          rcases List.mem_cons.mp hx with rfl | hx
          · exact hlt
          · exact lt_trans hlt (hc x hx)
      · split
        · exact h
        · next hlt hne =>
            refine List.pairwise_cons.mpr ⟨?_, ih hrest⟩
            intro x hx
            rcases mem_insertCountry.mp hx with rfl | hx
            · exact lt_of_le_of_ne (not_lt.mp hlt) (Ne.symm hne)
            · exact hc x hx

/-- No address is remembered twice, and the countries are those of the records. -/
structure Sound (c : Cache σ) : Prop where
  nodup : (c.records.map Prod.fst).Nodup
  ascending : c.countries.Pairwise (· < ·)
  mem_countries : ∀ code, code ∈ c.countries ↔ code ≠ "" ∧ code ∈ c.codes

theorem sound_fresh
    (ask : σ → Address → Answer × σ)
    (source : σ) :
    (fresh ask source).Sound where
  nodup := List.nodup_nil
  ascending := List.Pairwise.nil
  mem_countries := by simp [fresh, codes]

/-- An address that cannot be looked up is not remembered. -/
theorem not_mem_of_lookup
    {records : List (Address × Record)}
    {a : Address}
    (h : records.lookup a = none) :
    a ∉ records.map Prod.fst := by
  intro hmem
  obtain ⟨entry, hentry, rfl⟩ := List.mem_map.mp hmem
  have hne := List.lookup_eq_none_iff.mp h entry hentry
  simp at hne

theorem Sound.remember
    {c : Cache σ}
    {a : Address}
    (h : c.Sound)
    (ha : c.records.lookup a = none)
    (r : Record) :
    (c.remember a r).Sound where
  nodup := by
    simp only [Cache.remember, List.map_append, List.map_cons, List.map_nil]
    refine List.nodup_append.mpr ⟨h.nodup, List.nodup_singleton a, ?_⟩
    rintro b hb _ hmem rfl
    rw [List.mem_singleton.mp hmem] at hb
    exact not_mem_of_lookup ha hb
  ascending := by
    simp only [Cache.remember]
    split
    · exact h.ascending
    · exact ascending_insertCountry r.country h.ascending
  mem_countries := by
    intro code
    have hcodes : code ∈ (c.remember a r).codes ↔ code ∈ c.codes ∨ code = r.country := by
      simp [codes, Cache.remember]
    rw [hcodes]
    simp only [Cache.remember]
    split
    · next hblank =>
        rw [h.mem_countries code, hblank]
        tauto
    · next hcode =>
        rw [mem_insertCountry, h.mem_countries code]
        constructor
        · rintro (rfl | ⟨hne, hmem⟩)
          · exact ⟨hcode, Or.inr rfl⟩
          · exact ⟨hne, Or.inl hmem⟩
        · rintro ⟨hne, hmem | rfl⟩
          · exact Or.inr ⟨hne, hmem⟩
          · exact Or.inl rfl

theorem Sound.step
    {c after : Cache σ}
    (h : c.Sound)
    (hstep : Step c after) :
    after.Sound := by
  cases hstep with
  | known => exact h
  | @asked a ha =>
      have hsource : Sound { c with source := (c.ask c.source a).2 } :=
        ⟨h.nodup, h.ascending, h.mem_countries⟩
      unfold Cache.asked
      cases hr : (c.ask c.source a).1.record? with
      | none =>
          simp only [hr]
          exact hsource
      | some r =>
          simp only [hr]
          exact hsource.remember ha r

theorem Sound.lookup_eq_some_iff
    {c : Cache σ}
    (h : c.Sound)
    {a : Address}
    {r : Record} :
    c.records.lookup a = some r ↔ (a, r) ∈ c.records := by
  constructor
  · intro hlookup
    obtain ⟨before, after, hrecords, -⟩ := List.lookup_eq_some_iff.mp hlookup
    simp [hrecords]
  · intro hmem
    obtain ⟨before, after, hrecords⟩ := List.append_of_mem hmem
    refine List.lookup_eq_some_iff.mpr ⟨before, after, hrecords, ?_⟩
    intro entry hentry
    have hnodup := h.nodup
    simp only [hrecords, List.map_append, List.map_cons] at hnodup
    have hne := (List.nodup_append.mp hnodup).2.2 entry.1 (List.mem_map_of_mem hentry) a (by simp)
    simpa using Ne.symm hne

theorem countP_country
    (c : Cache σ)
    (code : String) :
    (c.records.countP fun (_, r) => r.country = code) = c.codes.count code := by
  simp only [codes, List.count, List.countP_map]
  exact List.countP_congr fun entry _ => by simp

/-- The counts of the countries add up to the number of records with a country. -/
theorem Sound.sum_countryCounts
    {c : Cache σ}
    (h : c.Sound) :
    (c.countryCounts.map Prod.snd).sum = c.codes.countP fun code => code ≠ "" := by
  have hcounts : c.countryCounts.map Prod.snd = c.countries.map fun code => c.codes.count code := by
    simp only [countryCounts, List.map_map]
    exact List.map_congr_left fun code _ => c.countP_country code
  have hperm : c.countries.Perm (c.codes.dedup.filter fun code => code ≠ "") := by
    refine (List.perm_ext_iff_of_nodup ?_ ?_).mpr fun code => ?_
    · exact h.ascending.imp fun hlt => ne_of_lt hlt
    · exact c.codes.nodup_dedup.filter _
    · rw [h.mem_countries]
      simp [and_comm]
  rw [hcounts, (hperm.map _).sum_eq]
  exact List.sum_map_count_dedup_filter_eq_countP _ _

/-- Every country is counted with at least one record. -/
theorem Sound.count_of_mem
    {c : Cache σ}
    (h : c.Sound)
    {code : String}
    {n : Nat}
    (hmem : (code, n) ∈ c.countryCounts) :
    n = c.codes.count code ∧ 1 ≤ n := by
  obtain ⟨code', hcode, heq⟩ := List.mem_map.mp hmem
  rw [Prod.mk.injEq] at heq
  obtain ⟨rfl, rfl⟩ := heq
  have hcount := c.countP_country code'
  have hcodes := ((h.mem_countries code').mp hcode).2
  exact ⟨hcount, hcount ▸ List.one_le_count_iff.mpr hcodes⟩

end Cache
end AccessAudit
