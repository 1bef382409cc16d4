import AccessAudit.Proofs.Enrichment.Echo
import Mathlib.Data.Finset.Card

/-!
# Countries of the addresses that were asked about

Where a source always says the same of an address, the cache does not show in which order, how often and
in which spelling addresses were asked about.  What it remembers is determined by the set of these
addresses: the record of each of them of which the source has one.  Hence the counts of the countries are
the sizes of sets of addresses.
-/

namespace AccessAudit
namespace Cache

variable {σ : Type}

/-- The addresses that texts denote. -/
def addresses (texts : List String) : Finset Address :=
  (texts.filterMap Address.ofLogged?).toFinset

/-- The addresses among some whose records carry a country code. -/
def carriers (answer : Address → Answer) (asked : Finset Address) (code : String) : Finset Address :=
  asked.filter fun a => (answer a).record?.map Record.country = some code

/-- A cache that has asked about a set of addresses, of each of which its source always says the same. -/
structure Recalls (answer : Address → Answer) (asked : Finset Address) (c : Cache σ) : Prop where
  answers : ∀ state a, (c.ask state a).1 = answer a
  sound : c.Sound
  lookup_iff : ∀ a r, c.records.lookup a = some r ↔ a ∈ asked ∧ answer a = .record r

@[simp] theorem addresses_nil :
    addresses [] = ∅ := by
  rfl

theorem addresses_cons
    (text : String)
    (texts : List String) :
    addresses (text :: texts) = addresses [text] ∪ addresses texts := by
  unfold addresses
  cases h : Address.ofLogged? text with
  | none => simp [h]
  | some a => simp [h]

theorem recalls_fresh
    {answer : Address → Answer}
    {ask : σ → Address → Answer × σ}
    (hask : ∀ state a, (ask state a).1 = answer a)
    (source : σ) :
    Recalls answer ∅ (fresh ask source) :=
  ⟨hask, sound_fresh ask source, fun a r => by simp [fresh]⟩

section Recalls

variable {answer : Address → Answer} {asked : Finset Address} {c : Cache σ}

/-- A lookup adds its address to those that were asked about, if it is not one of them. -/
theorem Recalls.lookup
    (h : Recalls answer asked c)
    (a : Address) :
    Recalls answer (insert a asked) (c.lookup a).2 := by
  cases hlookup : c.records.lookup a with
  | some r =>
      rw [lookup_of_known hlookup, Finset.insert_eq_self.mpr ((h.lookup_iff a r).mp hlookup).1]
      exact h
  | none =>
      rw [lookup_of_unknown hlookup]
      refine ⟨fun state b => by rw [ask_asked, h.answers], h.sound.step (.asked hlookup), ?_⟩
      intro b r
      rw [lookup_records_asked, h.answers, Option.or_eq_some_iff, h.lookup_iff, Finset.mem_insert]
      by_cases hba : b = a
      · -- the source has just been asked, and nothing was known before
        subst hba
        have hnew : ¬(b ∈ asked ∧ answer b = .record r) := by
          rw [← h.lookup_iff, hlookup]
          exact nofun
        simp only [hlookup, if_true, Answer.record?_eq_some_iff, true_or, true_and, hnew, false_or]
      · simp [hba]

theorem Recalls.annotate
    (h : Recalls answer asked c)
    (text : String) :
    Recalls answer (asked ∪ addresses [text]) (c.annotate text).2 := by
  cases ha : Address.ofLogged? text with
  | none =>
      have hnone : addresses [text] = ∅ := by simp [addresses, ha]
      rw [annotate_of_none ha, hnone, Finset.union_empty]
      exact h
  | some a =>
      have hone : addresses [text] = {a} := by simp [addresses, ha]
      rw [annotate_of_address ha, hone, Finset.union_comm, ← Finset.insert_eq]
      exact h.lookup a

theorem Recalls.annotateAll
    (h : Recalls answer asked c)
    (texts : List String) :
    Recalls answer (asked ∪ addresses texts) (c.annotateAll texts).2 := by
  induction texts generalizing asked c with
  | nil =>
      rw [addresses_nil, Finset.union_empty]
      exact h
  | cons text rest ih =>
      rw [addresses_cons, ← Finset.union_assoc]
      exact ih (h.annotate text)

/-- A country code is carried by as many remembered records as there are addresses with it. -/
theorem Recalls.count_codes
    (h : Recalls answer asked c)
    (code : String) :
    c.codes.count code = (carriers answer asked code).card := by
  have hnodup : ((c.records.filter fun entry => entry.2.country = code).map Prod.fst).Nodup :=
    h.sound.nodup.sublist (List.filter_sublist.map _)
  have hcarriers : ((c.records.filter fun entry => entry.2.country = code).map Prod.fst).toFinset =
      carriers answer asked code := by
    ext a
    simp only [List.mem_toFinset, List.mem_map, List.mem_filter, decide_eq_true_eq, carriers,
      Finset.mem_filter, Option.map_eq_some_iff, Answer.record?_eq_some_iff, Prod.exists,
      exists_and_right, exists_eq_right]
    constructor
    · rintro ⟨r, hmem, hcode⟩
      have hknown := (h.lookup_iff a r).mp (h.sound.lookup_eq_some_iff.mpr hmem)
      exact ⟨hknown.1, r, hknown.2, hcode⟩
    · rintro ⟨ha, r, hr, hcode⟩
      exact ⟨r, h.sound.lookup_eq_some_iff.mp ((h.lookup_iff a r).mpr ⟨ha, hr⟩), hcode⟩
  rw [← hcarriers, List.toFinset_card_of_nodup hnodup, List.length_map, ← List.countP_eq_length_filter,
    ← c.countP_country code]

/-- The countries that are counted are those of the addresses that were asked about, each with the number
of these addresses. -/
theorem Recalls.mem_countryCounts
    (h : Recalls answer asked c)
    (code : String)
    (n : Nat) :
    (code, n) ∈ c.countryCounts ↔
      code ≠ "" ∧ 0 < n ∧ n = (carriers answer asked code).card := by
  have hcode : code ∈ c.countries ↔ code ≠ "" ∧ 0 < (carriers answer asked code).card := by
    rw [h.sound.mem_countries, ← h.count_codes, List.count_pos_iff]
  simp only [countryCounts, List.mem_map, Prod.mk.injEq, countP_country, h.count_codes]
  constructor
  · rintro ⟨code', hmem, rfl, rfl⟩
    exact ⟨(hcode.mp hmem).1, (hcode.mp hmem).2, rfl⟩
  · rintro ⟨hne, hpos, rfl⟩
    exact ⟨code, hcode.mpr ⟨hne, hpos⟩, rfl, rfl⟩

theorem Recalls.ascending_countryCounts
    (h : Recalls answer asked c) :
    (c.countryCounts.map Prod.fst).Pairwise (· < ·) := by
  have hkeys : c.countryCounts.map Prod.fst = c.countries := by
    simp [countryCounts, Function.comp_def]
  rw [hkeys]
  exact h.sound.ascending

end Recalls

end Cache
end AccessAudit
