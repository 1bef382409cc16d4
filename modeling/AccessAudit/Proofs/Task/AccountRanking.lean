import AccessAudit.Proofs.Store.Listing
import AccessAudit.Proofs.Task.Annotation
import AccessAudit.Proofs.Task.KeyFacts

/-!
# The report on reference accounts neither loses nor repeats an address

The table counts the addresses of each account of the reference set by joining the log with the set.  The list
under it asks the log once more for the foreign addresses of each listed account, and gathers them by the
labels of their organizations, which come from elsewhere and may coincide.  Both tell of the same addresses:
each list holds every foreign address of its account once, as many as the table counts.
-/

namespace AccessAudit
namespace Task

open Store (Cell Event Uid Session)

variable {σ : Type}

/-! ### The addresses of an account -/

/-- The openings of sessions by an account. -/
def openingsOf (uid : Int) (log : List Event) : List Event :=
  log.filter fun e => e.uid = .integer uid ∧ e.kind = .openSession

/-- The addresses from which an account opened sessions. -/
def addressesOf (uid : Int) (log : List Event) : Finset String :=
  ((openingsOf uid log).map fun e => e.source.toText).toFinset

/-- Those of them that lie in no local network. -/
def foreignAddressesOf (networks : List Block) (uid : Int) (log : List Event) : Finset String :=
  (addressesOf uid log).filter fun source => Block.holdsLogged networks source = false

/-- What the log tells of an account. -/
def accountRow (networks : List Block) (log : List Event) (uid : Int) : AccountRow :=
  { uid := uid
    addresses := (addressesOf uid log).card
    foreign := (foreignAddressesOf networks uid log).card }

theorem mem_foreignSources
    {networks : List Block}
    {events : List Event}
    {source : Cell} :
    source ∈ foreignSources networks events ↔
      (∃ e ∈ events, e.source = source) ∧ Block.holdsLogged networks source.toText = false := by
  simp [foreignSources]

theorem toFinset_foreignSources
    (networks : List Block)
    (uid : Int)
    (log : List Event) :
    ((foreignSources networks (openingsOf uid log)).map Cell.toText).toFinset =
      foreignAddressesOf networks uid log := by
  ext address
  simp only [foreignAddressesOf, addressesOf, Finset.mem_filter, List.mem_toFinset, List.mem_map,
    mem_foreignSources]
  constructor
  · rintro ⟨_, ⟨⟨e, he, rfl⟩, hforeign⟩, rfl⟩
    exact ⟨⟨e, he, rfl⟩, hforeign⟩
  · rintro ⟨⟨e, he, rfl⟩, hforeign⟩
    exact ⟨_, ⟨⟨e, he, rfl⟩, hforeign⟩, rfl⟩

/-- An account has foreign addresses if and only if it opened a session from one. -/
theorem foreign_pos_iff
    {networks : List Block}
    {log : List Event}
    {uid : Int} :
    0 < (accountRow networks log uid).foreign ↔
      ∃ e ∈ openingsOf uid log, Block.holdsLogged networks e.source.toText = false := by
  simp only [accountRow, Finset.card_pos, foreignAddressesOf, addressesOf, Finset.filter_nonempty_iff,
    List.mem_toFinset, List.mem_map]
  constructor
  · rintro ⟨_, ⟨e, he, rfl⟩, hforeign⟩
    exact ⟨e, he, hforeign⟩
  · rintro ⟨e, he, hforeign⟩
    exact ⟨_, ⟨e, he, rfl⟩, hforeign⟩

/-- The second question to the log is about the same openings as the first one. -/
theorem foreignSourcesOf_eq
    (networks : List Block)
    (uid : Int)
    {log : List Event}
    (huids : ∀ e ∈ log, ∃ n, e.uid = .integer n) :
    foreignSourcesOf networks uid log =
      Store.distinct Store.textLe (foreignSources networks (openingsOf uid log)) := by
  unfold foreignSourcesOf openingsOf
  refine congrArg (fun events => Store.distinct Store.textLe (foreignSources networks events)) ?_
  refine List.filter_congr fun e he => ?_
  obtain ⟨n, hn⟩ := huids e he
  rw [hn, Bool.eq_iff_iff]
  simp [Uid.isInteger, Uid.le, le_antisymm_iff]

/-- The accounts of a set opened their sessions from addresses that are stored as texts. -/
def HasTexts (reference : List Int) (log : List Event) : Prop :=
  ∀ uid ∈ reference, ∀ e ∈ openingsOf uid log, ∃ t, e.source = .text t

/-! ### Listed accounts -/

section Accounts

variable {networks : List Block} {reference : List Int} {log : List Event}

theorem mem_accountOpenings
    {pair : Int × Event} :
    pair ∈ accountOpenings reference log ↔
      pair.1 ∈ reference ∧ pair.2 ∈ openingsOf pair.1 log := by
  obtain ⟨uid, e⟩ := pair
  unfold accountOpenings openingsOf
  simp only [List.mem_filterMap, List.mem_filter, decide_eq_true_iff]
  constructor
  · rintro ⟨e', he', hsome⟩
    split at hsome
    · next n hn =>
        split at hsome
        · next hopen =>
            cases hsome
            exact ⟨List.contains_iff_mem.mp hopen.2, he', hn, hopen.1⟩
        · cases hsome
    · cases hsome
  · rintro ⟨hmem, he, huid, hkind⟩
    refine ⟨e, he, ?_⟩
    simp [huid, hkind, hmem]

/-- The openings of all accounts, gathered by their accounts. -/
def openingGroups (reference : List Int) (log : List Event) : List (Int × List (Int × Event)) :=
  Store.groups (fun a b => a ≤ b) (·.1) (accountOpenings reference log)

theorem mem_openingGroup
    {group : Int × List (Int × Event)}
    (hgroup : group ∈ openingGroups reference log) :
    group.1 ∈ reference ∧ ∀ e, e ∈ group.2.map (·.2) ↔ e ∈ openingsOf group.1 log := by
  have hmembers := Store.group_perm_filter Store.ranked_int (fun _ _ => trivial) hgroup
  have hmem (pair : Int × Event) : pair ∈ group.2 ↔
      (pair.1 ∈ reference ∧ pair.2 ∈ openingsOf pair.1 log) ∧ pair.1 = group.1 := by
    rw [hmembers.mem_iff, List.mem_filter, mem_accountOpenings, decide_eq_true_iff]
  obtain ⟨pair, hpair⟩ := List.exists_mem_of_ne_nil _ (Store.ne_nil_of_mem_groups hgroup)
  obtain ⟨⟨hreference, -⟩, hkey⟩ := (hmem pair).mp hpair
  rw [hkey] at hreference
  refine ⟨hreference, fun e => ?_⟩
  rw [List.mem_map]
  constructor
  · rintro ⟨pair, hpair, rfl⟩
    obtain ⟨⟨-, hopening⟩, hkey⟩ := (hmem pair).mp hpair
    rwa [hkey] at hopening
  · intro he
    exact ⟨(group.1, e), (hmem _).mpr ⟨⟨hreference, he⟩, rfl⟩, rfl⟩

/-- What is listed of a group is what the log tells of its account. -/
theorem row_of_openingGroup
    (networks : List Block)
    (htexts : HasTexts reference log)
    {group : Int × List (Int × Event)}
    (hgroup : group ∈ openingGroups reference log) :
    ({ uid := group.1
       addresses := (Store.distinct Store.textLe ((group.2.map (·.2)).map (·.source))).length
       foreign := (Store.distinct Store.textLe (foreignSources networks (group.2.map (·.2)))).length } :
      AccountRow) =
      accountRow networks log group.1 := by
  obtain ⟨hreference, hmem⟩ := mem_openingGroup hgroup
  generalize group.2.map (·.2) = events at hmem
  have hsources : ∀ source ∈ events.map (·.source), ∃ t, source = .text t := by
    intro source hsource
    obtain ⟨e, he, rfl⟩ := List.mem_map.mp hsource
    exact htexts _ hreference e ((hmem e).mp he)
  have hforeign : ∀ source ∈ foreignSources networks events, ∃ t, source = .text t :=
    fun source hsource => hsources source (List.mem_of_mem_filter hsource)
  unfold accountRow
  rw [length_distinct_texts hsources, length_distinct_texts hforeign]
  congr 2
  · ext address
    simp only [addressesOf, List.mem_toFinset, List.map_map, List.mem_map, Function.comp_apply, hmem]
  · rw [← toFinset_foreignSources]
    ext address
    simp only [List.mem_toFinset, List.mem_map, mem_foreignSources, hmem]

/-- The rows of the listed accounts before they are ranked. -/
def foreignRows (networks : List Block) (reference : List Int) (log : List Event) : List AccountRow :=
  (((openingGroups reference log).map (·.1)).map (accountRow networks log)).filter fun r => 0 < r.foreign

theorem accountRows_eq
    (networks : List Block)
    (htexts : HasTexts reference log)
    (topN : Nat) :
    accountRows networks reference topN log =
      Store.limit topN
        (Store.rankBy
          [Store.descending fun r => (r.score : Int), Store.ascending fun r => r.uid]
          (foreignRows networks reference log)) := by
  unfold accountRows foreignRows
  dsimp only
  rw [List.map_map]
  congr 3
  exact List.map_congr_left fun group hgroup => row_of_openingGroup networks htexts hgroup

theorem mem_foreignRows
    (networks : List Block)
    (reference : List Int)
    (log : List Event)
    (r : AccountRow) :
    r ∈ foreignRows networks reference log ↔
      r = accountRow networks log r.uid ∧ r.uid ∈ reference ∧ 0 < r.foreign := by
  unfold foreignRows
  simp only [List.mem_filter, List.mem_map (f := accountRow networks log), decide_eq_true_iff]
  constructor
  · rintro ⟨⟨uid, huid, rfl⟩, hforeign⟩
    obtain ⟨group, hgroup, rfl⟩ := List.mem_map.mp huid
    exact ⟨rfl, (mem_openingGroup hgroup).1, hforeign⟩
  · rintro ⟨hrow, hreference, hforeign⟩
    refine ⟨⟨r.uid, ?_, hrow.symm⟩, hforeign⟩
    -- an account with a foreign address has an opening
    rw [hrow] at hforeign
    obtain ⟨e, he, -⟩ := foreign_pos_iff.mp hforeign
    exact (Store.mem_keys_groups Store.ranked_int (fun _ _ => trivial) r.uid).mpr
      ⟨(r.uid, e), mem_accountOpenings.mpr ⟨hreference, he⟩, rfl⟩

theorem nodup_uids_foreignRows
    (networks : List Block)
    (reference : List Int)
    (log : List Event) :
    ((foreignRows networks reference log).map (·.uid)).Nodup :=
  Store.nodup_keys_listing Store.ranked_int (fun _ _ => trivial) AccountRow.uid (fun _ => rfl) _

theorem length_foreignRows_le
    (networks : List Block)
    (reference : List Int)
    (log : List Event) :
    (foreignRows networks reference log).length ≤ log.length :=
  (Store.length_listing_le Store.ranked_int (fun _ _ => trivial) AccountRow.uid (fun _ => rfl) _).trans
    (List.length_filterMap_le _ _)

/-- The two criteria rank the listed accounts strictly, by score from the highest and then by user id. -/
theorem pairwise_foreignRows
    (networks : List Block)
    (reference : List Int)
    (log : List Event) :
    (Store.rankBy [Store.descending fun r => (r.score : Int), Store.ascending fun r => r.uid]
        (foreignRows networks reference log)).Pairwise
      fun r r' => r'.addresses * r'.foreign < r.addresses * r.foreign ∨
        r.addresses * r.foreign = r'.addresses * r'.foreign ∧ r.uid < r'.uid := by
  have hscore := Store.compares_descending fun r : AccountRow => (r.score : Int)
  have huid := Store.compares_ascending AccountRow.uid
  refine (Store.pairwise_rankBy_pair (fun a b _ _ => hscore a b) (fun a b _ _ => huid a b)
    (nodup_uids_foreignRows networks reference log)).imp fun {a b} hless => ?_
  rcases hless with hscore | ⟨hscore, huid⟩
  · exact .inl (Int.ofNat_lt.mp (OrderDual.toDual_lt_toDual.mp hscore))
  · exact .inr ⟨Int.natCast_inj.mp (OrderDual.toDual_inj.mp hscore), huid⟩

end Accounts

/-! ### Lists by organizations -/

/-- The addresses, each once, gathered in ascending order under labels in ascending order. -/
structure Gathered (groups : List (String × List String)) (sources : Finset String) : Prop where
  labels : groups.Pairwise fun group next => group.1 < next.1
  filled : ∀ group ∈ groups, group.2 ≠ []
  ascending : ∀ group ∈ groups, group.2.Pairwise (· < ·)
  nodup : (groups.flatMap (·.2)).Nodup
  mem_iff : ∀ source, source ∈ groups.flatMap (·.2) ↔ source ∈ sources

/-- However the labels coincide, addresses in ascending order are gathered by them. -/
theorem gathered_orgLines
    {labelled : List (String × String)}
    (h : (labelled.map (·.2)).Pairwise (· < ·)) :
    ∃ groups, Gathered groups (labelled.map (·.2)).toFinset ∧
      (∀ group ∈ groups, ∀ source ∈ group.2, (group.1, source) ∈ labelled) ∧
      orgLines labelled = groups.map fun group => group.1 ++ ": " ++ String.intercalate ", " group.2 := by
  let gathered := Store.groups Store.textLe (·.1) labelled
  let groups := gathered.map fun group => (group.1, group.2.map (·.2))
  have hall : groups.flatMap (·.2) = (gathered.flatMap (·.2)).map (·.2) := by
    simp only [groups, List.flatMap_map, List.map_flatMap]
  have hperm : (groups.flatMap (·.2)).Perm (labelled.map (·.2)) := by
    rw [hall]
    exact (Store.perm_flatMap_groups _ _ _).map _
  have hmember : ∀ rows ∈ gathered, ∀ row ∈ rows.2, row ∈ labelled ∧ row.1 = rows.1 := by
    intro rows hrows row hrow
    rw [Store.group_eq_filter Store.ranked_textLe (fun _ _ => trivial) hrows, List.mem_filter] at hrow
    exact ⟨hrow.1, of_decide_eq_true hrow.2⟩
  refine ⟨groups, ⟨?labels, ?filled, ?ascending, ?nodup, ?mem_iff⟩, ?labelled, ?lines⟩
  case labels =>
    exact List.pairwise_map.mpr (Store.pairwise_groups Store.ranked_textLe fun _ _ => trivial)
  case filled =>
    intro group hgroup
    obtain ⟨rows, hrows, rfl⟩ := List.mem_map.mp hgroup
    exact mt List.map_eq_nil_iff.mp (Store.ne_nil_of_mem_groups hrows)
  case ascending =>
    intro group hgroup
    obtain ⟨rows, hrows, rfl⟩ := List.mem_map.mp hgroup
    dsimp only
    rw [Store.group_eq_filter Store.ranked_textLe (fun _ _ => trivial) hrows]
    exact h.sublist (List.filter_sublist.map _)
  case nodup =>
    exact hperm.nodup_iff.mpr (h.imp ne_of_lt)
  case mem_iff =>
    intro source
    rw [hperm.mem_iff, List.mem_toFinset]
  case labelled =>
    intro group hgroup source hsource
    obtain ⟨rows, hrows, rfl⟩ := List.mem_map.mp hgroup
    obtain ⟨row, hrow, rfl⟩ := List.mem_map.mp hsource
    obtain ⟨hmem, hlabel⟩ := hmember rows hrows row hrow
    dsimp only
    rwa [← hlabel]
  case lines =>
    simp only [orgLines, groups, List.map_map]
    rfl

/-- A label names the organization of a record: by its description, with the country if that is known. -/
def Names (r : Record) (label : String) : Prop :=
  (r.description = "" ∧ label = "(unknown organization)") ∨
  (r.description ≠ "" ∧ r.country = "" ∧ label = r.description) ∨
  (r.description ≠ "" ∧ r.country ≠ "" ∧ label = r.description ++ " (" ++ r.country ++ ")")

theorem names_orgLabel
    (r : Record) :
    Names r (orgLabel r) := by
  unfold orgLabel
  split
  · next hdescription => exact .inl ⟨hdescription, rfl⟩
  · next hdescription =>
      split
      · next hcountry => exact .inr (.inl ⟨hdescription, hcountry, rfl⟩)
      · next hcountry => exact .inr (.inr ⟨hdescription, hcountry, rfl⟩)

/-- The list of an account holds its foreign addresses, as many as its row counts: a heading that names the
account, and under it a line for each label, with the addresses whose records it names. -/
def ListsForeign (networks : List Block) (log : List Event) (r : AccountRow) (text : String) : Prop :=
  ∃ groups : List (String × List String),
    Gathered groups (foreignAddressesOf networks r.uid log) ∧
    (groups.flatMap (·.2)).length = r.foreign ∧
    (∀ group ∈ groups, ∀ source ∈ group.2, ∃ record, Names record group.1) ∧
    text = itemized ("    - uid \"" ++ Decimal.text r.uid ++ "\", sessions opened from foreign IPs:")
      (groups.map fun group => group.1 ++ ": " ++ String.intercalate ", " group.2)

section Lists

variable {networks : List Block} {log : List Event}

theorem listsForeign_accountList
    (huids : ∀ e ∈ log, ∃ n, e.uid = .integer n)
    {uid : Int}
    (htexts : ∀ e ∈ openingsOf uid log, ∃ t, e.source = .text t)
    (cache : Cache σ) :
    ListsForeign networks log (accountRow networks log uid) (accountList networks log uid cache).1 := by
  let cells := foreignSources networks (openingsOf uid log)
  let sources := (Store.distinct Store.textLe cells).map Cell.toText
  let labelled := ((cache.annotateAll sources).1.map orgLabel).zip sources
  have hsources : labelled.map (·.2) = sources :=
    List.map_snd_zip (by rw [List.length_map (f := orgLabel), Sketch.length_annotateAll])
  have hcells : ∀ source ∈ cells, ∃ t, source = .text t := by
    intro source hsource
    obtain ⟨⟨e, he, rfl⟩, -⟩ := mem_foreignSources.mp hsource
    exact htexts e he
  have hascends : sources.Pairwise (· < ·) := pairwise_distinct_texts hcells
  have hsame : sources.toFinset = foreignAddressesOf networks uid log := by
    rw [← toFinset_foreignSources]
    ext address
    simp only [sources, cells, List.mem_toFinset, List.mem_map,
      Store.mem_distinct Store.ranked_cells fun _ _ => trivial]
  have hlabelled : (labelled.map (·.2)).Pairwise (· < ·) := by rwa [hsources]
  obtain ⟨groups, hgathered, hlabels, hlines⟩ := gathered_orgLines hlabelled
  rw [hsources, hsame] at hgathered
  refine ⟨groups, hgathered, ?_, fun group hgroup source hsource => ?_, ?_⟩
  · have hall : (groups.flatMap (·.2)).toFinset = foreignAddressesOf networks uid log := by
      ext source
      rw [List.mem_toFinset, hgathered.mem_iff]
    rw [← List.toFinset_card_of_nodup hgathered.nodup, hall]
    rfl
  · have hlabel := (List.of_mem_zip (hlabels group hgroup source hsource)).1
    obtain ⟨record, -, hrecord⟩ := List.mem_map.mp hlabel
    exact ⟨record, hrecord ▸ names_orgLabel record⟩
  · unfold accountList
    rw [foreignSourcesOf_eq networks uid huids, ← hlines, ← bulletList_eq]
    rfl

theorem listsForeign_accountLists
    (huids : ∀ e ∈ log, ∃ n, e.uid = .integer n)
    {reference : List Int}
    (htexts : HasTexts reference log)
    {rows : List AccountRow}
    (hrows : ∀ r ∈ rows, r = accountRow networks log r.uid ∧ r.uid ∈ reference)
    (cache : Cache σ) :
    List.Forall₂ (ListsForeign networks log) rows
      (accountLists networks log (rows.map (·.uid)) cache).1 := by
  induction rows generalizing cache with
  | nil => exact .nil
  | cons r rest ih =>
      refine .cons ?_ (ih (fun r hr => hrows r (List.mem_cons_of_mem _ hr)) _)
      obtain ⟨hrow, hreference⟩ := hrows r List.mem_cons_self
      rw [hrow]
      exact listsForeign_accountList huids (htexts r.uid hreference) cache

end Lists

/-- The table of accounts, each with the product of its two numbers. -/
def scoreTable (rows : List AccountRow) : Table :=
  { headers := ["uid", "unique_ips", "foreign_ips", "score"]
    rows := rows.map fun r =>
      [Decimal.text r.uid, Decimal.groupedText r.addresses, Decimal.groupedText r.foreign,
        Decimal.groupedText (r.addresses * r.foreign)]
    alignments := [("uid", .left), ("unique_ips", .right), ("foreign_ips", .right), ("score", .right)] }

section Report

theorem getReference_fixView
    {s : Session}
    {reference : List Int}
    (h : s.reference = some reference) :
    s.fixView.getReference = .ok reference := by
  rw [Session.getReference, show s.fixView.reference = s.reference from rfl, h]
  rfl

variable {config : Configuration} {s : Session} {reference : List Int} {log : List Event}

/-- The report on addresses that are all texts. -/
theorem foreignByAccount_of_texts
    (hpos : 0 < config.topN)
    (htop : config.topN < 2 ^ 64)
    (c : Context σ)
    (hloaded : c.referenceLoaded = true)
    (hreference : s.reference = some reference)
    (hlog : s.tables.events = some log)
    (huids : ∀ e ∈ log, ∃ n, e.uid = .integer n)
    (htexts : HasTexts reference log)
    (hlength : log.length < 2 ^ 31)
    (hsome : ∃ uid ∈ reference, ∃ e ∈ openingsOf uid log,
      Block.holdsLogged s.localNetworks e.source.toText = false) :
    ∃ (all : List AccountRow) (lists : List String),
      (foreignByAccount config (s, c)).1 = .ok ((scoreTable (all.take config.topN)).render :: lists) ∧
      (∀ r, r ∈ all ↔
        r = accountRow s.localNetworks log r.uid ∧ r.uid ∈ reference ∧ 0 < r.foreign) ∧
      all.Pairwise (fun r r' => r'.addresses * r'.foreign < r.addresses * r.foreign ∨
        r.addresses * r.foreign = r'.addresses * r'.foreign ∧ r.uid < r'.uid) ∧
      List.Forall₂ (ListsForeign s.localNetworks log) (all.take config.topN) lists := by
  let all := Store.rankBy [Store.descending fun r => (r.score : Int), Store.ascending fun r => r.uid]
    (foreignRows s.localNetworks reference log)
  have hperm : all.Perm (foreignRows s.localNetworks reference log) := Store.perm_rankBy _ _
  have hmem (r : AccountRow) : r ∈ all ↔
      r = accountRow s.localNetworks log r.uid ∧ r.uid ∈ reference ∧ 0 < r.foreign :=
    hperm.mem_iff.trans (mem_foreignRows _ _ _ r)
  have hrows : accountRows s.localNetworks reference config.topN log = all.take config.topN := by
    have hfew := length_foreignRows_le s.localNetworks reference log
    rw [accountRows_eq s.localNetworks htexts]
    exact Store.limit_eq_take htop (by rw [hperm.length_eq]; omega)
  have hlisted : (all.take config.topN).isEmpty = false := by
    obtain ⟨uid, huid, hforeign⟩ := hsome
    have hall : accountRow s.localNetworks log uid ∈ all :=
      (hmem _).mpr ⟨rfl, huid, foreign_pos_iff.mpr hforeign⟩
    have hne : all ≠ [] := List.ne_nil_of_mem hall
    simp [List.isEmpty_eq_false_iff, List.take_eq_nil_iff, hpos.ne', hne]
  refine ⟨all, _, ?report, hmem, pairwise_foreignRows _ _ _,
    listsForeign_accountLists huids htexts (fun r hr => ?rows) c.cache⟩
  case rows =>
    obtain ⟨hrow, hreference, -⟩ := (hmem r).mp (List.mem_of_mem_take hr)
    exact ⟨hrow, hreference⟩
  case report =>
    have hnetworks : s.fixView.localNetworks = s.localNetworks := rfl
    have hasked : onlyAddresses config.topN ((accountOpenings reference log).map (·.2.source)) = .ok () := by
      refine onlyAddresses_of_texts config.topN fun source hsource => ?_
      obtain ⟨pair, hpair, rfl⟩ := List.mem_map.mp hsource
      obtain ⟨hmember, hopening⟩ := mem_accountOpenings.mp hpair
      exact htexts pair.1 hmember pair.2 hopening
    simp only [foreignByAccount, hloaded, Session.read, Store.Tables.getEvents, hlog,
      getReference_fixView hreference, hnetworks, Option.elim_some, hrows, hlisted, hasked, Bool.not_true,
      Bool.false_eq_true, if_false]
    rfl

/-- The report on addresses of which one is stored as bytes. -/
theorem foreignByAccount_of_bytes
    (hpos : 0 < config.topN)
    (htop : config.topN < 2 ^ 64)
    (c : Context σ)
    (hloaded : c.referenceLoaded = true)
    (hreference : s.reference = some reference)
    (hlog : s.tables.events = some log)
    (hbytes : ∃ uid ∈ reference, ∃ e ∈ openingsOf uid log, ∃ b, e.source = .bytes b) :
    (foreignByAccount config (s, c)).1 = .error (Fault.ofStore (.argumentType .blob)) := by
  have hasked : onlyAddresses config.topN ((accountOpenings reference log).map (·.2.source)) =
      .error (.argumentType .blob) := by
    obtain ⟨uid, hmember, e, hopening, b, hsource⟩ := hbytes
    have hpair : (uid, e) ∈ accountOpenings reference log := mem_accountOpenings.mpr ⟨hmember, hopening⟩
    exact onlyAddresses_of_bytes hpos htop ⟨e.source, List.mem_map_of_mem hpair, b, hsource⟩
  simp only [foreignByAccount, hloaded, Session.read, Store.Tables.getEvents, hlog,
    getReference_fixView hreference, Option.elim_some, hasked, Bool.not_true, Bool.false_eq_true, if_false]

end Report

/-- **No address of an account is lost or repeated.**  Let the user ids of the log be whole numbers, and let an
account of the loaded reference set have opened a session from a foreign address.  If all addresses from which
accounts of the set opened sessions are texts, the report succeeds.  Its table lists the first rows, up to the
limit, of all accounts of the set with foreign addresses, by score from the highest and then by user id, each with
its numbers of addresses and of foreign ones and, as its score, their product; and for each row, in the same order,
there is a list of the foreign addresses of the account, each once, under labels in ascending order, whatever is
found out about them.  If one of them is stored as bytes, which are no address, the whole report fails. -/
theorem foreignByAccount_exact
    (config : Configuration)
    (hpos : 0 < config.topN)
    (htop : config.topN < 2 ^ 64)
    (s : Session)
    (c : Context σ)
    (hloaded : c.referenceLoaded = true)
    (reference : List Int)
    (hreference : s.reference = some reference)
    (log : List Event)
    (hlog : s.tables.events = some log)
    (huids : ∀ e ∈ log, ∃ n, e.uid = .integer n)
    (hlength : log.length < 2 ^ 31)
    (hsome : ∃ uid ∈ reference, ∃ e ∈ openingsOf uid log,
      Block.holdsLogged s.localNetworks e.source.toText = false) :
    ((∀ uid ∈ reference, ∀ e ∈ openingsOf uid log, ∃ t, e.source = .text t) →
      ∃ (all : List AccountRow) (lists : List String),
        (foreignByAccount config (s, c)).1 = .ok ((scoreTable (all.take config.topN)).render :: lists) ∧
        (∀ r, r ∈ all ↔
          r = accountRow s.localNetworks log r.uid ∧ r.uid ∈ reference ∧ 0 < r.foreign) ∧
        all.Pairwise (fun r r' => r'.addresses * r'.foreign < r.addresses * r.foreign ∨
          r.addresses * r.foreign = r'.addresses * r'.foreign ∧ r.uid < r'.uid) ∧
        List.Forall₂ (ListsForeign s.localNetworks log) (all.take config.topN) lists) ∧
    ((∃ uid ∈ reference, ∃ e ∈ openingsOf uid log, ∃ b, e.source = .bytes b) →
      (foreignByAccount config (s, c)).1 = .error (Fault.ofStore (.argumentType .blob))) :=
  ⟨fun htexts => foreignByAccount_of_texts hpos htop c hloaded hreference hlog huids htexts hlength hsome,
    foreignByAccount_of_bytes hpos htop c hloaded hreference hlog⟩

/-- The events of an account that opened sessions at home and, twice, from one address elsewhere. -/
def travelEvents : List Event :=
  [⟨"192.168.1.5", .openSession, .integer 1001, "2024-03-18 08:00:00"⟩,
    ⟨"203.0.113.5", .openSession, .integer 1001, "2024-03-18 09:00:00"⟩,
    ⟨"203.0.113.5", .openSession, .integer 1001, "2024-03-18 10:00:00"⟩,
    ⟨"203.0.113.9", .auth, .integer 1001, "2024-03-18 11:00:00"⟩]

/-- A session on a log of these events, with the account in the reference set. -/
def travelLog : Session :=
  { committed := ⟨some travelEvents, some []⟩
    reference := some [1001]
    localNetworks := Block.defaultLocal
    now := 1710892800 }

/-- The account is listed with two addresses, of which the foreign one is listed once. -/
theorem travelLog_listed :
    (∃ uid ∈ [1001], ∃ e ∈ openingsOf uid travelEvents,
      Block.holdsLogged travelLog.localNetworks e.source.toText = false) ∧
    ∃ list,
      (foreignByAccount {} (travelLog, { Context.idle with referenceLoaded := true })).1 =
        .ok [(scoreTable [⟨1001, 2, 1⟩]).render, list] ∧
      ListsForeign travelLog.localNetworks travelEvents ⟨1001, 2, 1⟩ list := by
  have hsome : ∃ uid ∈ [1001], ∃ e ∈ openingsOf uid travelEvents,
      Block.holdsLogged travelLog.localNetworks e.source.toText = false := by
    decide +kernel
  obtain ⟨hexact, -⟩ :=
    foreignByAccount_exact {} (by decide) (by decide) travelLog
      { Context.idle with referenceLoaded := true } rfl [1001] rfl travelEvents rfl
      (by simp [travelEvents]) (by decide) hsome
  obtain ⟨all, lists, hreport, hmem, hranked, hlists⟩ := hexact (by simp [travelEvents, openingsOf])
  have hrow : accountRow travelLog.localNetworks travelEvents 1001 = ⟨1001, 2, 1⟩ := by
    decide +kernel
  have hall : all = [⟨1001, 2, 1⟩] := by
    have hnodup : all.Nodup := by
      refine hranked.imp fun {r r'} hless heq => ?_
      subst heq
      omega
    refine List.perm_singleton.mp
      ((List.perm_ext_iff_of_nodup hnodup (List.nodup_singleton _)).mpr fun r => ?_)
    rw [hmem, List.mem_singleton (b := (⟨1001, 2, 1⟩ : AccountRow))]
    constructor
    · rintro ⟨heq, huid, -⟩
      rw [heq, List.mem_singleton.mp huid]
      exact hrow
    · rintro rfl
      exact ⟨hrow.symm, List.mem_singleton_self _, by decide⟩
  subst hall
  cases hlists with
  | cons hlist hrest =>
      cases hrest
      exact ⟨hsome, _, hreport, hlist⟩

end Task
end AccessAudit
