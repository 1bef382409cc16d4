import AccessAudit.Proofs.Store.Ranking

/-!
# Rows of the keys that occur

A ranking gathers rows under a key, makes one row of every group and keeps those that pass a test.  Where
what it makes of a group can be told of the key alone, the rows it keeps are these: for every key what is
told of it, if that passes.  A test that no key without rows passes makes it all keys.
-/

namespace AccessAudit
namespace Store

variable {α β κ ρ : Type} [LinearOrder ρ]

/-- What is told of the keys that occur, as far as it passes a test. -/
def listing (le : κ → κ → Bool) (key : α → κ) (tell : κ → β) (passes : β → Bool) (rows : List α) :
    List β :=
  (((groups le key rows).map (·.1)).map tell).filter passes

section Listing

variable {le : κ → κ → Bool} {rank : κ → ρ} {keys : κ → Prop} {key : α → κ} {rows : List α}
  {tell : κ → β} {passes : β → Bool}

/-- What a group is made into is told of its key. -/
theorem listing_eq_map
    {make : κ × List α → β}
    {takes : κ × List α → Bool}
    (hmake : ∀ group ∈ groups le key rows, make group = tell group.1)
    (htakes : ∀ group ∈ groups le key rows, takes group = passes (tell group.1)) :
    ((groups le key rows).filter takes).map make = listing le key tell passes rows := by
  unfold listing
  rw [List.map_map, List.filter_map, List.filter_congr htakes]
  exact List.map_congr_left fun group hgroup => hmake group (List.mem_of_mem_filter hgroup)

theorem mem_listing
    (h : Ranked le rank keys)
    (hkeys : ∀ r ∈ rows, keys (key r))
    (keyOf : β → κ)
    (htell : ∀ k, keyOf (tell k) = k)
    (hoccurs : ∀ k, passes (tell k) = true → ∃ r ∈ rows, key r = k)
    (b : β) :
    b ∈ listing le key tell passes rows ↔ b = tell (keyOf b) ∧ passes b = true := by
  unfold listing
  simp only [List.mem_filter, List.mem_map (f := tell)]
  constructor
  · rintro ⟨⟨k, -, rfl⟩, hpasses⟩
    exact ⟨by rw [htell], hpasses⟩
  · rintro ⟨htold, hpasses⟩
    refine ⟨⟨keyOf b, ?_, htold.symm⟩, hpasses⟩
    rw [htold] at hpasses
    exact (mem_keys_groups h hkeys _).mpr (hoccurs _ hpasses)

/-- No key is listed twice. -/
theorem nodup_keys_listing
    (h : Ranked le rank keys)
    (hkeys : ∀ r ∈ rows, keys (key r))
    (keyOf : β → κ)
    (htell : ∀ k, keyOf (tell k) = k)
    (passes : β → Bool) :
    ((listing le key tell passes rows).map keyOf).Nodup := by
  have hall : ((((groups le key rows).map (·.1)).map tell).map keyOf).Nodup := by
    rw [List.map_map, show keyOf ∘ tell = id from funext htell, List.map_id]
    exact nodup_keys_groups h hkeys
  exact hall.sublist (List.filter_sublist.map _)

/-- The key of a listed row is that of a row that was gathered. -/
theorem occurs_of_mem_listing
    (h : Ranked le rank keys)
    (hkeys : ∀ r ∈ rows, keys (key r))
    (keyOf : β → κ)
    (htell : ∀ k, keyOf (tell k) = k)
    {b : β}
    (hb : b ∈ listing le key tell passes rows) :
    ∃ r ∈ rows, key r = keyOf b := by
  obtain ⟨k, hk, rfl⟩ := List.mem_map.mp (List.mem_of_mem_filter hb)
  rw [htell]
  exact (mem_keys_groups h hkeys k).mp hk

/-- An order in which the gathered keys stand by rank is one of the listed keys. -/
theorem below_of_mem_listing
    (h : Ranked le rank keys)
    (hkeys : ∀ r ∈ rows, keys (key r))
    (keyOf : β → κ)
    (htell : ∀ k, keyOf (tell k) = k)
    {below : κ → κ → Prop}
    (hbelow : ∀ r ∈ rows, ∀ r' ∈ rows, rank (key r) < rank (key r') → below (key r) (key r'))
    {a b : β}
    (ha : a ∈ listing le key tell passes rows)
    (hb : b ∈ listing le key tell passes rows)
    (hless : rank (keyOf a) < rank (keyOf b)) :
    below (keyOf a) (keyOf b) := by
  obtain ⟨r, hr, hkey⟩ := occurs_of_mem_listing h hkeys keyOf htell ha
  obtain ⟨r', hr', hkey'⟩ := occurs_of_mem_listing h hkeys keyOf htell hb
  rw [← hkey, ← hkey'] at hless ⊢
  exact hbelow r hr r' hr' hless

theorem keys_of_mem_listing
    (h : Ranked le rank keys)
    (hkeys : ∀ r ∈ rows, keys (key r))
    (keyOf : β → κ)
    (htell : ∀ k, keyOf (tell k) = k)
    {b : β}
    (hb : b ∈ listing le key tell passes rows) :
    keys (keyOf b) := by
  obtain ⟨r, hr, hkey⟩ := occurs_of_mem_listing h hkeys keyOf htell hb
  exact hkey ▸ hkeys r hr

/-- No two listed rows have keys of the same rank. -/
theorem nodup_ranks_listing
    (h : Ranked le rank keys)
    (hkeys : ∀ r ∈ rows, keys (key r))
    (keyOf : β → κ)
    (htell : ∀ k, keyOf (tell k) = k)
    (passes : β → Bool) :
    ((listing le key tell passes rows).map fun b => rank (keyOf b)).Nodup := by
  have hnodup := nodup_keys_listing h hkeys keyOf htell passes
  refine List.Nodup.map_on (fun a ha b hb heq => ?_) (List.Nodup.of_map _ hnodup)
  exact List.inj_on_of_nodup_map hnodup ha hb
    (h.inj _ _ (keys_of_mem_listing h hkeys keyOf htell ha) (keys_of_mem_listing h hkeys keyOf htell hb) heq)

theorem length_listing_le
    (h : Ranked le rank keys)
    (hkeys : ∀ r ∈ rows, keys (key r))
    (keyOf : β → κ)
    (htell : ∀ k, keyOf (tell k) = k)
    (passes : β → Bool) :
    (listing le key tell passes rows).length ≤ rows.length := by
  have hsubset : (listing le key tell passes rows).map keyOf ⊆ rows.map key := by
    intro k hk
    obtain ⟨b, hb, rfl⟩ := List.mem_map.mp hk
    exact List.mem_map.mpr (occurs_of_mem_listing h hkeys keyOf htell hb)
  simpa using ((nodup_keys_listing h hkeys keyOf htell passes).subperm hsubset).length_le

end Listing

end Store
end AccessAudit
