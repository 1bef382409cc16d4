import AccessAudit.Proofs.Calendar.DateText
import AccessAudit.Proofs.Store.KeyOrder
import AccessAudit.Task.DailyCount
import AccessAudit.Task.TopCounts
import Mathlib.Data.List.MinMax
import Mathlib.Data.Prod.Lex
import Mathlib.Order.Defs.LinearOrder

/-!
# Listed rows do not depend on the order of the log

Every ranking lists groups of events.  Of a group it shows the key, which all its events have, and
counts and dates of its events, for which their order does not matter.  So an event log in another order
is gathered into the same rows, and nothing is left to the order in which they are ranked and cut.
-/

namespace AccessAudit
namespace Task

open Store (Cell Event Uid Ranked Regrouped Discerned)

variable {κ δ ρ τ : Type} [LinearOrder ρ] [LinearOrder τ]

/-! ### Groups of events -/

section Group

variable {events events' : List Event}

theorem countKind_of_perm
    (kind : Store.EventKind)
    (hperm : events.Perm events') :
    countKind kind events = countKind kind events' :=
  hperm.countP_eq _

theorem earliest_eq_min?
    (dates : List Cell) :
    earliest dates = dates.min? := by
  cases dates with
  | nil => rfl
  | cons d rest =>
      have hmin : (fun m x : Cell => if x < m then x else m) = min := by
        funext m x
        rw [min_comm, min_def_lt]
      simp only [earliest, List.min?, hmin]

theorem latest_eq_max?
    (dates : List Cell) :
    latest dates = dates.max? := by
  cases dates with
  | nil => rfl
  | cons d rest =>
      have hmax : (fun m x : Cell => if m < x then x else m) = max := by
        funext m x
        rw [max_def_lt]
      simp only [latest, List.max?, hmax]

theorem earliest_of_perm
    {dates dates' : List Cell}
    (hperm : dates.Perm dates') :
    earliest dates = earliest dates' := by
  rw [earliest_eq_min?, earliest_eq_min?]
  refine Option.ext fun d => ?_
  rw [List.min?_eq_some_iff, List.min?_eq_some_iff]
  simp only [hperm.mem_iff]

theorem latest_of_perm
    {dates dates' : List Cell}
    (hperm : dates.Perm dates') :
    latest dates = latest dates' := by
  rw [latest_eq_max?, latest_eq_max?]
  refine Option.ext fun d => ?_
  rw [List.max?_eq_some_iff, List.max?_eq_some_iff]
  simp only [hperm.mem_iff]

theorem period_of_perm
    (now : Int)
    (hperm : events.Perm events') :
    period now events = period now events' := by
  have hdates := hperm.map (·.date)
  simp only [period, earliest_of_perm hdates, latest_of_perm hdates]

theorem foldl_earlier_mem
    (first : Event)
    (rest : List Event) :
    rest.foldl (fun m x => if x.date < m.date then x else m) first ∈ first :: rest := by
  induction rest generalizing first with
  | nil => exact List.mem_cons_self
  | cons x rest ih =>
      rw [List.foldl_cons]
      split
      · exact List.mem_cons_of_mem _ (ih x)
      · rcases List.mem_cons.mp (ih first) with hfirst | hrest
        · rw [hfirst]
          exact List.mem_cons_self
        · exact List.mem_cons_of_mem _ (List.mem_cons_of_mem _ hrest)

theorem mem_of_earliestEvent
    {e : Event}
    (h : earliestEvent events = some e) :
    e ∈ events := by
  cases events with
  | nil => cases h
  | cons first rest =>
      cases h
      exact foldl_earlier_mem first rest

/-- Where all events of a group have its key, the group is listed under it. -/
theorem listedKey_eq
    {key : Event → κ}
    {group : κ × List Event}
    (h : ∀ e ∈ group.2, key e = group.1) :
    listedKey key group = group.1 := by
  unfold listedKey
  cases hfirst : earliestEvent group.2 with
  | none => rfl
  | some e => exact h e (mem_of_earliestEvent hfirst)

/-- What a row shows of a group of events: its key, the number of its counterparts and its period. -/
theorem shown_of_regrouped
    {key : Event → κ}
    {group group' : κ × List Event}
    (hsame : Regrouped key events group group')
    {otherLe : δ → δ → Bool}
    {otherRank : δ → τ}
    {others : δ → Prop}
    (hother : Ranked otherLe otherRank others)
    {other : Event → δ}
    (hothers : ∀ e ∈ events, others (other e))
    (now : Int) :
    listedKey key group = listedKey key group' ∧
    Store.distinct otherLe (group.2.map other) = Store.distinct otherLe (group'.2.map other) ∧
    period now group.2 = period now group'.2 := by
  refine ⟨?_, ?_, period_of_perm now hsame.perm⟩
  · rw [listedKey_eq fun e he => (hsame.members e he).2, hsame.key_eq, listedKey_eq]
    intro e he
    rw [(hsame.members e (hsame.perm.mem_iff.mpr he)).2, hsame.key_eq]
  · refine Store.distinct_of_perm hother ?_ (hsame.perm.map other)
    intro value hvalue
    obtain ⟨e, he, rfl⟩ := List.mem_map.mp hvalue
    exact hothers e (hsame.members e he).1

end Group

/-! ### Rows by sources or user ids -/

section Counterparts

variable {le : κ → κ → Bool} {rank : κ → ρ} {keys : κ → Prop} (key : Event → κ)
  {otherLe : δ → δ → Bool} {otherRank : δ → τ} {others : δ → Prop} (other : Event → δ)
  {events events' : List Event}

theorem volumeRows_of_perm
    (h : Ranked le rank keys)
    (hkeys : ∀ e ∈ events, keys (key e))
    (hother : Ranked otherLe otherRank others)
    (hothers : ∀ e ∈ events, others (other e))
    (now : Int)
    (topN : Nat)
    (hperm : events.Perm events') :
    volumeRows le key otherLe other now topN events =
      volumeRows le key otherLe other now topN events' := by
  unfold volumeRows
  dsimp only
  -- groups are left out by their size before rows are made of them
  have hbusy : List.Forall₂ (Regrouped key events)
      ((Store.groups le key events).filter fun group => minEventCount < group.2.length)
      ((Store.groups le key events').filter fun group => minEventCount < group.2.length) := by
    refine List.rel_filter ?_ (Store.forall₂_groups h hkeys hperm)
    intro group group' hsame
    dsimp only
    rw [hsame.perm.length_eq]
  rw [Store.map_eq_of_regrouped hbusy]
  intro group group' hsame
  obtain ⟨hkey, hcounterparts, hperiod⟩ := shown_of_regrouped hsame hother hothers now
  rw [hkey, hsame.perm.length_eq, hcounterparts, hperiod]

theorem ratioRows_of_perm
    (h : Ranked le rank keys)
    (hkeys : ∀ e ∈ events, keys (key e))
    (hother : Ranked otherLe otherRank others)
    (hothers : ∀ e ∈ events, others (other e))
    (now : Int)
    (config : Configuration)
    (hperm : events.Perm events') :
    ratioRows le key otherLe other now config events =
      ratioRows le key otherLe other now config events' := by
  unfold ratioRows
  dsimp only
  rw [Store.map_groups_of_perm h hkeys hperm]
  rintro ⟨k, es⟩ ⟨k', es'⟩ hsame
  obtain ⟨hkey, hcounterparts, hperiod⟩ := shown_of_regrouped hsame hother hothers now
  dsimp only at hcounterparts hperiod ⊢
  rw [hkey, countKind_of_perm _ hsame.perm, countKind_of_perm _ hsame.perm, hcounterparts, hperiod]

end Counterparts

/-! ### Rows by pairs -/

section Pairs

variable {events events' : List Event}

/-- Pairs are ordered by their sources, and those with one source by their user ids. -/
theorem ranked_pairs
    {uids : List Uid}
    (h : Discerned uids) :
    Ranked pairLe (fun pair => toLex (pair.1, pair.2.rank)) (fun pair => pair.2 ∈ uids) where
  le_iff a b ha hb := by
    unfold pairLe
    rw [Prod.Lex.toLex_le_toLex]
    split
    · next heq => simp [heq, Uid.le_iff_rank_le h ha hb]
    · next hne => simp [hne, Store.textLe, le_iff_lt_or_eq]
  inj a b ha hb heq := by
    obtain ⟨hsource, hrank⟩ := Prod.ext_iff.mp (toLex_inj.mp heq)
    exact Prod.ext hsource ((Store.ranked_uids h).inj _ _ ha hb hrank)

theorem openRows_of_perm
    (hdiscerned : Discerned (events.map (·.uid)))
    (networks : List Block)
    (topN : Nat)
    (hperm : events.Perm events') :
    openRows networks topN events = openRows networks topN events' := by
  have hkeys : ∀ e ∈ events.filter fun e => !Block.holdsLogged networks e.source.toText,
      e.uid ∈ events.map (·.uid) :=
    fun e he => List.mem_map_of_mem (List.mem_of_mem_filter he)
  unfold openRows
  dsimp only
  rw [Store.map_groups_of_perm (ranked_pairs hdiscerned) hkeys (hperm.filter _)]
  rintro ⟨⟨source, uid⟩, es⟩ ⟨⟨source', uid'⟩, es'⟩ ⟨hkey, hmembers, -⟩
  cases hkey
  dsimp only at hmembers ⊢
  simp only [countKind_of_perm _ hmembers]

theorem onlyAddresses_of_perm
    (topN : Nat)
    {cells cells' : List Cell}
    (hperm : cells.Perm cells') :
    onlyAddresses topN cells = onlyAddresses topN cells' := by
  rw [onlyAddresses, onlyAddresses, hperm.any_eq]

theorem openUids_of_perm
    (hdiscerned : Discerned (events.map (·.uid)))
    (networks : List Block)
    (topN : Nat)
    (hperm : events.Perm events') :
    openUids networks topN events = openUids networks topN events' := by
  unfold openUids
  rw [onlyAddresses_of_perm topN (hperm.map _), openRows_of_perm hdiscerned networks topN hperm]

end Pairs

/-! ### Lists below a table -/

section Lists

variable {events events' : List Event}

theorem uidsOfSource_of_perm
    (hdiscerned : Discerned (events.map (·.uid)))
    (source : String)
    (hperm : events.Perm events') :
    uidsOfSource source events = uidsOfSource source events' := by
  unfold uidsOfSource openings
  refine Store.distinct_of_perm (Store.ranked_uids hdiscerned) ?_
    (((hperm.filter _).filter _).map _)
  intro uid huid
  obtain ⟨e, he, rfl⟩ := List.mem_map.mp huid
  exact List.mem_map_of_mem (List.mem_of_mem_filter (List.mem_of_mem_filter he))

theorem sourcesOfUid_of_perm
    (uid : String)
    (hperm : events.Perm events') :
    sourcesOfUid uid events = sourcesOfUid uid events' := by
  unfold sourcesOfUid openings
  exact Store.distinct_of_perm Store.ranked_textLe (fun _ _ => trivial)
    (((hperm.filter _).filter _).map _)

theorem foreignSources_of_perm
    (networks : List Block)
    (hperm : events.Perm events') :
    Store.distinct Store.textLe (foreignSources networks events) =
      Store.distinct Store.textLe (foreignSources networks events') :=
  Store.distinct_of_perm Store.ranked_textLe (fun _ _ => trivial) ((hperm.map _).filter _)

theorem foreignSourcesOf_of_perm
    (networks : List Block)
    (uid : Int)
    (hperm : events.Perm events') :
    foreignSourcesOf networks uid events = foreignSourcesOf networks uid events' :=
  foreignSources_of_perm networks (hperm.filter _)

end Lists

/-! ### Rows by accounts and by days -/

section Accounts

variable {events events' : List Event}

theorem accountOpenings_of_perm
    (reference : List Int)
    (hperm : events.Perm events') :
    (accountOpenings reference events).Perm (accountOpenings reference events') :=
  hperm.filterMap _

theorem accountRows_of_perm
    (networks : List Block)
    (reference : List Int)
    (topN : Nat)
    (hperm : events.Perm events') :
    accountRows networks reference topN events = accountRows networks reference topN events' := by
  unfold accountRows
  dsimp only
  rw [Store.map_groups_of_perm Store.ranked_int (fun _ _ => trivial)
    (accountOpenings_of_perm reference hperm)]
  rintro ⟨uid, es⟩ ⟨uid', es'⟩ ⟨hkey, hmembers, -⟩
  have hevents := hmembers.map (·.2)
  have haddresses := Store.distinct_of_perm Store.ranked_textLe (fun _ _ => trivial)
    (hevents.map (·.source))
  cases hkey
  dsimp only at hevents haddresses ⊢
  rw [haddresses, foreignSources_of_perm networks hevents]

/-- Days are ordered by their texts, which tell their dates. -/
theorem ranked_days :
    Ranked (fun a b : String × Calendar.Date => Store.textLe a.1 b.1) Prod.fst
      (fun day => day.1 = day.2.text) where
  le_iff a b _ _ := by simp [Store.textLe]
  inj a b ha hb heq := by
    refine Prod.ext heq (Calendar.Date.text_injective ?_)
    rw [← ha, ← hb, heq]

theorem text_of_eventDay
    {now : Int}
    {e : Event}
    {day : String × Calendar.Date}
    (h : eventDay now e = some day) :
    day.1 = day.2.text := by
  obtain ⟨m, -, rfl⟩ := Option.map_eq_some_iff.mp h
  rfl

theorem dailyTable_of_perm
    (now : Int)
    (hperm : events.Perm events') :
    dailyTable now events = dailyTable now events' := by
  have hdays := hperm.map (eventDay now)
  have hcounts : dayCounts ((events.map (eventDay now)).filterMap id) =
      dayCounts ((events'.map (eventDay now)).filterMap id) := by
    refine Store.map_groups_of_perm ranked_days ?_ (hdays.filterMap id) ?_
    · intro day hday
      obtain ⟨found, hfound, rfl⟩ := List.mem_filterMap.mp hday
      obtain ⟨e, -, he⟩ := List.mem_map.mp hfound
      exact text_of_eventDay he
    · rintro ⟨day, es⟩ ⟨day', es'⟩ ⟨hkey, hmembers, -⟩
      cases hkey
      dsimp only at hmembers ⊢
      rw [hmembers.length_eq]
  unfold dailyTable
  dsimp only
  rw [hdays.any_eq, hcounts]

end Accounts

end Task
end AccessAudit
