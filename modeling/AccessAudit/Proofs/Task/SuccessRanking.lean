import AccessAudit.Proofs.Double.Rounding
import AccessAudit.Proofs.Task.KeyFacts

/-!
# Rankings by success are exact

A ranking by success lists the first of all keys with authentications and sessions whose ratio is less than
the threshold, the least ratio first and equal ratios by key, and it shows the true counts of each.  The ratio
is a rounded quotient.  Rounding keeps the order of values and leaves the threshold as it is; so what is
listed has an exact ratio less than the threshold.
-/

namespace AccessAudit
namespace Task

open Store (Cell Event Uid Ranked)

/-! ### Ratios -/

/-- Numbers that are no NaN and carry no minus sign. -/
def Unsigned (x : Double) : Prop :=
  ∃ rank h, x = .signed false rank h

/-- Numbers without a sign, in the order of ratios. -/
theorem ranked_ratioLe : Ranked ratioLe (fun x => x.place?.getD 0) Unsigned where
  le_iff := by
    rintro _ _ ⟨rank, h, rfl⟩ ⟨rank', h', rfl⟩
    simp [ratioLe, Double.lt, Double.place?]
  inj := by
    rintro _ _ ⟨rank, h, rfl⟩ ⟨rank', h', rfl⟩ heq
    simp only [Double.place?, Option.getD_some, Bool.false_eq_true, if_false, Int.natCast_inj] at heq
    subst heq
    rfl

/-- An accepted threshold is finite. -/
theorem toRat?_of_acceptsThreshold
    {t : Double}
    (h : Configuration.acceptsThreshold t = true) :
    ∃ r, t.toRat? = some r := by
  have hinfinite : ∀ negative, Configuration.acceptsThreshold (.infinity negative) = false := by
    decide +kernel
  cases t with
  | nan => exact absurd h (by decide +kernel)
  | signed negative rank hrank =>
      have hfinite : rank ≠ infiniteRank := by
        rintro rfl
        exact Bool.false_ne_true ((hinfinite negative).symm.trans h)
      exact ⟨_, if_neg hfinite⟩

/-! ### Ranked keys -/

section Keys

variable {κ δ ρ τ : Type} [DecidableEq κ] [DecidableEq δ] [LinearOrder ρ] [LinearOrder τ]

/-- What the log tells of a key. -/
def keyRow (key : Event → κ) (other : Event → δ) (now : Int) (log : List Event) (k : κ) : RatioRow κ :=
  let events := log.filter fun e => key e = k
  { key := k
    sessions := countKind .openSession events
    auths := countKind .auth events
    counterparts := (events.map other).toFinset.card
    period := period now events }

theorem counts_le
    (key : Event → κ)
    (other : Event → δ)
    (now : Int)
    (log : List Event)
    (k : κ) :
    (keyRow key other now log k).sessions ≤ log.length ∧
    (keyRow key other now log k).auths ≤ log.length := by
  have hcount (kind : Store.EventKind) :
      countKind kind (log.filter fun e => key e = k) ≤ log.length :=
    List.countP_le_length.trans (List.length_filter_le _ _)
  exact ⟨hcount .openSession, hcount .auth⟩

theorem occurs_of_auths
    {key : Event → κ}
    {other : Event → δ}
    {now : Int}
    {log : List Event}
    {k : κ}
    (h : 0 < (keyRow key other now log k).auths) :
    ∃ e ∈ log, key e = k := by
  obtain ⟨e, he, -⟩ := List.countP_pos_iff.mp h
  exact ⟨e, List.mem_of_mem_filter he, of_decide_eq_true (List.mem_filter.mp he).2⟩

/-- The rows are the first of a ranking of all keys that are listed, and the exact ratios of those, as far as
counts are numbers of the format, lie below the threshold. -/
structure RanksBySuccess (key : Event → κ) (other : Event → δ) (below : κ → κ → Prop) (now : Int)
    (config : Configuration) (log : List Event) (rows : List (RatioRow κ)) : Prop where
  first : ∃ all : List (RatioRow κ),
    rows = all.take config.topN ∧
    (∀ r, r ∈ all ↔
      r = keyRow key other now log r.key ∧
      0 < r.auths ∧ 0 < r.sessions ∧ r.ratio.lt config.threshold = true) ∧
    (all.map (·.key)).Nodup ∧
    all.Pairwise fun r r' =>
      r.ratio.lt r'.ratio = true ∨ r.ratio = r'.ratio ∧ below r.key r'.key
  exact : log.length ≤ 2 ^ 53 → ∃ t, config.threshold.toRat? = some t ∧
    (∀ r ∈ rows, (r.sessions : Rat) / r.auths < t) ∧
    ∀ k, t ≤ ((keyRow key other now log k).sessions : Rat) / (keyRow key other now log k).auths →
      k ∉ rows.map (·.key)

section Groups

variable {le : κ → κ → Bool} {rank : κ → ρ} {keys : κ → Prop} {key : Event → κ}
  {otherLe : δ → δ → Bool} {otherRank : δ → τ} {others : δ → Prop} {other : Event → δ}
  {log : List Event}

/-- What is listed of a group is what the log tells of its key. -/
theorem row_of_group
    (h : Ranked le rank keys)
    (hkeys : ∀ e ∈ log, keys (key e))
    (hother : Ranked otherLe otherRank others)
    (hothers : ∀ e ∈ log, others (other e))
    (now : Int)
    {group : κ × List Event}
    (hgroup : group ∈ Store.groups le key log) :
    ({ key := listedKey key group
       sessions := countKind .openSession group.2
       auths := countKind .auth group.2
       counterparts := (Store.distinct otherLe (group.2.map other)).length
       period := period now group.2 } : RatioRow κ) =
      keyRow key other now log group.1 := by
  obtain ⟨hkey, hperm, hcounterparts, hperiod⟩ :=
    told_of_group h hkeys hother hothers now hgroup
  unfold keyRow
  dsimp only
  rw [hkey, countKind_of_perm _ hperm, countKind_of_perm _ hperm, hcounterparts, hperiod]

/-- The rows of the listed keys before they are ranked. -/
def lowRows (le : κ → κ → Bool) (key : Event → κ) (other : Event → δ) (now : Int)
    (config : Configuration) (log : List Event) : List (RatioRow κ) :=
  (((Store.groups le key log).map (·.1)).map (keyRow key other now log)).filter fun r =>
    0 < r.auths && 0 < r.sessions && r.ratio.lt config.threshold

theorem ratioRows_eq
    (h : Ranked le rank keys)
    (hkeys : ∀ e ∈ log, keys (key e))
    (hother : Ranked otherLe otherRank others)
    (hothers : ∀ e ∈ log, others (other e))
    (now : Int)
    (config : Configuration) :
    ratioRows le key otherLe other now config log =
      Store.limit config.topN
        (Store.rankBy
          [Store.ascendingBy ratioLe fun r => r.ratio, Store.ascendingBy le fun r => r.key]
          (lowRows le key other now config log)) := by
  unfold ratioRows lowRows
  dsimp only
  rw [List.map_map]
  congr 3
  exact List.map_congr_left fun group hgroup => row_of_group h hkeys hother hothers now hgroup

theorem mem_lowRows
    (h : Ranked le rank keys)
    (hkeys : ∀ e ∈ log, keys (key e))
    (other : Event → δ)
    (now : Int)
    (config : Configuration)
    (r : RatioRow κ) :
    r ∈ lowRows le key other now config log ↔
      r = keyRow key other now log r.key ∧
      0 < r.auths ∧ 0 < r.sessions ∧ r.ratio.lt config.threshold = true := by
  have hoccurs (k : κ) (hpasses : (0 < (keyRow key other now log k).auths &&
      0 < (keyRow key other now log k).sessions &&
      (keyRow key other now log k).ratio.lt config.threshold) = true) :
      ∃ e ∈ log, key e = k := by
    simp only [Bool.and_eq_true, decide_eq_true_iff] at hpasses
    exact occurs_of_auths hpasses.1.1
  refine (Store.mem_listing h hkeys RatioRow.key (fun _ => rfl) hoccurs r).trans ?_
  simp only [Bool.and_eq_true, decide_eq_true_iff, and_assoc]

theorem nodup_keys_lowRows
    (h : Ranked le rank keys)
    (hkeys : ∀ e ∈ log, keys (key e))
    (other : Event → δ)
    (now : Int)
    (config : Configuration) :
    ((lowRows le key other now config log).map (·.key)).Nodup :=
  Store.nodup_keys_listing h hkeys RatioRow.key (fun _ => rfl) _

/-- The ratio of a listed key is a number without a sign. -/
theorem ratio_of_mem_lowRows
    (h : Ranked le rank keys)
    (hkeys : ∀ e ∈ log, keys (key e))
    (hlog : log.length < 2 ^ 63)
    {now : Int}
    {config : Configuration}
    {r : RatioRow κ}
    (hr : r ∈ lowRows le key other now config log) :
    Unsigned r.ratio := by
  obtain ⟨hrow, hauths, -⟩ := (mem_lowRows h hkeys other now config r).mp hr
  have hcounts := counts_le key other now log r.key
  rw [← hrow] at hcounts
  exact ⟨_, _, Double.div_ofInt_natCast (by omega) (by omega) hauths⟩

theorem length_lowRows_le
    (h : Ranked le rank keys)
    (hkeys : ∀ e ∈ log, keys (key e))
    (other : Event → δ)
    (now : Int)
    (config : Configuration) :
    (lowRows le key other now config log).length ≤ log.length :=
  Store.length_listing_le h hkeys RatioRow.key (fun _ => rfl) _

/-- The two criteria rank the listed keys strictly, by ratio and then by key. -/
theorem pairwise_lowRows
    (h : Ranked le rank keys)
    (hkeys : ∀ e ∈ log, keys (key e))
    (other : Event → δ)
    (now : Int)
    (config : Configuration)
    (hlog : log.length < 2 ^ 63) :
    (Store.rankBy
        [Store.ascendingBy ratioLe fun r => r.ratio, Store.ascendingBy le fun r => r.key]
        (lowRows le key other now config log)).Pairwise
      fun r r' => r.ratio.lt r'.ratio = true ∨ r.ratio = r'.ratio ∧ rank r.key < rank r'.key := by
  have hkey (r : RatioRow κ) (hr : r ∈ lowRows le key other now config log) : keys r.key :=
    Store.keys_of_mem_listing h hkeys RatioRow.key (fun _ => rfl) hr
  have hratio (r : RatioRow κ) (hr : r ∈ lowRows le key other now config log) :=
    ratio_of_mem_lowRows h hkeys hlog hr
  have hbyratio (a b : RatioRow κ) (ha : a ∈ lowRows le key other now config log)
      (hb : b ∈ lowRows le key other now config log) :
      (Store.ascendingBy ratioLe RatioRow.ratio a b).Compares (a.ratio.place?.getD 0)
        (b.ratio.place?.getD 0) :=
    ranked_ratioLe.compares_ascendingBy RatioRow.ratio (hratio a ha) (hratio b hb)
  have hbykey (a b : RatioRow κ) (ha : a ∈ lowRows le key other now config log)
      (hb : b ∈ lowRows le key other now config log) :
      (Store.ascendingBy le RatioRow.key a b).Compares (rank a.key) (rank b.key) :=
    h.compares_ascendingBy RatioRow.key (hkey a ha) (hkey b hb)
  have hranks : ((lowRows le key other now config log).map fun r => rank r.key).Nodup :=
    Store.nodup_ranks_listing h hkeys RatioRow.key (fun _ => rfl) _
  refine (Store.pairwise_rankBy_pair hbyratio hbykey hranks).imp_of_mem fun {a b} ha hb hless => ?_
  have ha := hratio a ((Store.perm_rankBy _ _).mem_iff.mp ha)
  have hb := hratio b ((Store.perm_rankBy _ _).mem_iff.mp hb)
  rcases hless with hplace | ⟨hplace, hrank⟩
  · left
    have hlow := mt (ranked_ratioLe.le_iff _ _ hb ha).mp hplace.not_ge
    simpa [ratioLe] using hlow
  · exact .inr ⟨ranked_ratioLe.inj _ _ ha hb hplace, hrank⟩

theorem ranksBySuccess_ratioRows
    (h : Ranked le rank keys)
    (hkeys : ∀ e ∈ log, keys (key e))
    (hother : Ranked otherLe otherRank others)
    (hothers : ∀ e ∈ log, others (other e))
    {below : κ → κ → Prop}
    (hbelow : ∀ e ∈ log, ∀ e' ∈ log, rank (key e) < rank (key e') → below (key e) (key e'))
    (now : Int)
    (config : Configuration)
    (hthreshold : Configuration.acceptsThreshold config.threshold = true)
    (htop : config.topN < 2 ^ 64)
    (hlog : log.length < 2 ^ 63) :
    RanksBySuccess key other below now config log
      (ratioRows le key otherLe other now config log) := by
  have hmem := mem_lowRows h hkeys other now config
  have hlength := length_lowRows_le h hkeys other now config
  have hperm := Store.perm_rankBy
    [Store.ascendingBy ratioLe RatioRow.ratio, Store.ascendingBy le RatioRow.key]
    (lowRows le key other now config log)
  have hrows := ratioRows_eq h hkeys hother hothers now config
  rw [Store.limit_eq_take htop (by rw [hperm.length_eq]; omega)] at hrows
  constructor
  case first =>
    refine ⟨_, hrows, fun r => hperm.mem_iff.trans (hmem r),
      (hperm.map _).nodup_iff.mpr (nodup_keys_lowRows h hkeys other now config), ?_⟩
    refine (pairwise_lowRows h hkeys other now config hlog).imp_of_mem fun {a b} ha hb hless => ?_
    exact hless.imp_right (And.imp_right (Store.below_of_mem_listing h hkeys RatioRow.key
      (fun _ => rfl) hbelow (hperm.mem_iff.mp ha) (hperm.mem_iff.mp hb)))
  case exact =>
    intro hsmall
    obtain ⟨t, ht⟩ := toRat?_of_acceptsThreshold hthreshold
    have hlisted : ∀ r ∈ ratioRows le key otherLe other now config log,
        r = keyRow key other now log r.key ∧ (r.sessions : Rat) / r.auths < t := by
      intro r hr
      rw [hrows] at hr
      obtain ⟨hrow, hauths, -, hlow⟩ := (hmem r).mp (hperm.mem_iff.mp (List.mem_of_mem_take hr))
      have hcounts := counts_le key other now log r.key
      rw [← hrow] at hcounts
      exact ⟨hrow, Double.quotient_lt_of_lt (by omega) (by omega) hauths ht hlow⟩
    refine ⟨t, ht, fun r hr => (hlisted r hr).2, ?_⟩
    intro k hk hmem
    obtain ⟨r, hr, rfl⟩ := List.mem_map.mp hmem
    obtain ⟨hrow, hless⟩ := hlisted r hr
    rw [hrow] at hless
    exact hk.not_gt hless

end Groups

end Keys

/-- **Rankings by success are exact.**  Let the user ids of the log be whole numbers.  For addresses and for
user ids the listed rows are the first ones, up to the limit, of a ranking of all keys that have
authentications and sessions and whose rounded ratio is less than the threshold, by ratio and then by key.
Each row shows the counts of its key, and no key has two.  As far as counts are numbers of the format, which
they are up to 2 to the power of 53, the exact ratio of a listed key is less than the exact threshold, and a
key with an exact ratio that is not less is not listed.  No table has 2 to the power of 63 rows, as these are
numbered by whole numbers of 64 bits. -/
theorem ratioRows_exact
    (config : Configuration)
    (hthreshold : Configuration.acceptsThreshold config.threshold = true)
    (htop : config.topN < 2 ^ 64)
    (now : Int)
    (log : List Event)
    (huids : ∀ e ∈ log, ∃ n, e.uid = .integer n)
    (hlog : log.length < 2 ^ 63) :
    RanksBySuccess (·.source) (·.uid) (· < ·) now config log
      (ratioRows Store.textLe (·.source) Uid.le (·.uid) now config log) ∧
    RanksBySuccess (·.uid) (·.source)
      (fun uid uid' => ∃ n n', uid = .integer n ∧ uid' = .integer n' ∧ n < n') now config log
      (ratioRows Uid.le (·.uid) Store.textLe (·.source) now config log) := by
  have hdiscerned : Store.Discerned (log.map (·.uid)) := by
    refine Store.discerned_of_integers fun uid huid => ?_
    obtain ⟨e, he, rfl⟩ := List.mem_map.mp huid
    exact huids e he
  have hmem : ∀ e ∈ log, e.uid ∈ log.map (·.uid) := fun e he => List.mem_map_of_mem he
  constructor
  · exact ranksBySuccess_ratioRows Store.ranked_cells (fun _ _ => trivial)
      (Store.ranked_uids hdiscerned) hmem (fun _ _ _ _ hless => hless) now config hthreshold htop hlog
  · refine ranksBySuccess_ratioRows (Store.ranked_uids hdiscerned) hmem Store.ranked_textLe
      (fun _ _ => trivial) (fun e he e' he' hless => ?_) now config hthreshold htop hlog
    obtain ⟨n, hn⟩ := huids e he
    obtain ⟨n', hn'⟩ := huids e' he'
    rw [hn, hn'] at hless
    exact ⟨n, n', hn, hn', Store.Uid.rank_integer_lt_iff.mp hless⟩

/-- A log of one session for three authentications from one address, and one for two from another. -/
def halfLog : List Event :=
  [⟨"192.0.2.1", .auth, .integer 1001, "2024-03-01 08:00:00"⟩,
    ⟨"192.0.2.1", .auth, .integer 1001, "2024-03-01 08:00:10"⟩,
    ⟨"192.0.2.1", .auth, .integer 1001, "2024-03-01 08:00:20"⟩,
    ⟨"192.0.2.1", .openSession, .integer 1001, "2024-03-01 08:00:30"⟩,
    ⟨"192.0.2.2", .auth, .integer 1002, "2024-03-01 09:00:00"⟩,
    ⟨"192.0.2.2", .auth, .integer 1002, "2024-03-01 09:00:10"⟩,
    ⟨"192.0.2.2", .openSession, .integer 1002, "2024-03-01 09:00:20"⟩]

/-- With a threshold of one half the first address is listed and the second one is not. -/
theorem half_not_listed :
    let config : Configuration := { threshold := Double.ofDecimal false 5 (-1) }
    let rows := ratioRows Store.textLe (·.source) Uid.le (·.uid) 1710892800 config halfLog
    Configuration.acceptsThreshold config.threshold = true ∧
    (∀ e ∈ halfLog, ∃ n, e.uid = .integer n) ∧
    Cell.text "192.0.2.1" ∈ rows.map (·.key) ∧
    Cell.text "192.0.2.2" ∉ rows.map (·.key) := by
  intro config rows
  have hthreshold : Configuration.acceptsThreshold config.threshold = true := by decide +kernel
  have huids : ∀ e ∈ halfLog, ∃ n, e.uid = .integer n := by simp [halfLog]
  obtain ⟨⟨all, hrows, hmem, hnodup, -⟩, hexact⟩ :=
    (ratioRows_exact config hthreshold (by decide) 1710892800 halfLog huids (by decide)).1
  obtain ⟨t, ht, -, hhigh⟩ := hexact (by decide)
  have hhalf : config.threshold.toRat? = some (1 / 2) := by decide +kernel
  obtain rfl : 1 / 2 = t := Option.some.inj (hhalf.symm.trans ht)
  have hlisted : keyRow (·.source) (·.uid) 1710892800 halfLog "192.0.2.1" ∈ all :=
    (hmem _).mpr ⟨rfl, by decide +kernel, by decide +kernel, by decide +kernel⟩
  have hfew : all.length ≤ 20 := by
    have hsubset : all.map (·.key) ⊆ halfLog.map (·.source) := by
      intro k hk
      obtain ⟨r, hr, rfl⟩ := List.mem_map.mp hk
      obtain ⟨hrow, hauths, -⟩ := (hmem r).mp hr
      rw [hrow] at hauths
      exact List.mem_map.mpr (occurs_of_auths hauths)
    have hlength := (hnodup.subperm hsubset).length_le
    rw [List.length_map, List.length_map] at hlength
    exact hlength.trans (by decide)
  refine ⟨hthreshold, huids, ?_, hhigh _ (by decide +kernel)⟩
  rw [show rows = all from hrows.trans (List.take_of_length_le hfew)]
  exact List.mem_map.mpr ⟨_, hlisted, rfl⟩

end Task
end AccessAudit
