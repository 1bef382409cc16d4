import AccessAudit.Proofs.Basic
import AccessAudit.Proofs.Store.Listing
import AccessAudit.Proofs.Task.Rows

/-!
# What the log tells of a key

The reports gather the log under a key and count what is in each group.  A group has all events with its
key, so these counts are what the log tells of the key.  Columns of user ids are read as whole numbers, and
that succeeds if and only if they hold nothing else.
-/

namespace AccessAudit
namespace Task

open Store (Cell Event Uid Ranked)

/-! ### Groups of events -/

section Groups

variable {κ δ ρ τ : Type} [DecidableEq κ] [DecidableEq δ] [LinearOrder ρ] [LinearOrder τ]
  {le : κ → κ → Bool} {rank : κ → ρ} {keys : κ → Prop} {key : Event → κ}
  {otherLe : δ → δ → Bool} {otherRank : δ → τ} {others : δ → Prop} {other : Event → δ}
  {log : List Event}

/-- The key, the number of counterparts and the period of a group are told by the events with its key. -/
theorem told_of_group
    (h : Ranked le rank keys)
    (hkeys : ∀ e ∈ log, keys (key e))
    (hother : Ranked otherLe otherRank others)
    (hothers : ∀ e ∈ log, others (other e))
    (now : Int)
    {group : κ × List Event}
    (hgroup : group ∈ Store.groups le key log) :
    let events := log.filter fun e => key e = group.1
    listedKey key group = group.1 ∧
    group.2.Perm events ∧
    (Store.distinct otherLe (group.2.map other)).length = (events.map other).toFinset.card ∧
    period now group.2 = period now events := by
  intro events
  have hmembers := Store.key_of_mem_group h hkeys hgroup
  have hperm : group.2.Perm events := Store.group_perm_filter h hkeys hgroup
  have hcounterparts : ∀ value ∈ group.2.map other, others value := by
    intro value hvalue
    obtain ⟨e, he, rfl⟩ := List.mem_map.mp hvalue
    exact hothers e (hmembers e he).1
  refine ⟨listedKey_eq fun e he => (hmembers e he).2, hperm, ?_, period_of_perm now hperm⟩
  rw [Store.length_distinct hother hcounterparts, List.toFinset_eq_of_perm _ _ (hperm.map other)]

end Groups

/-- There are three kinds of events, so every event is counted under one of them. -/
theorem countKind_add
    (events : List Event) :
    countKind .auth events + countKind .openSession events + countKind .closeSession events =
      events.length := by
  unfold countKind
  induction events with
  | nil => rfl
  | cons e rest ih =>
      simp only [List.countP_cons, List.length_cons, ← ih]
      cases e.kind <;> simp <;> omega

/-! ### Columns of whole numbers -/

/-- Of two user ids that are whole numbers the first is the less. -/
def NumberBelow (uid uid' : Uid) : Prop :=
  ∃ n n', uid = .integer n ∧ uid' = .integer n' ∧ n < n'

theorem numberBelow_of_rank_lt
    {uid uid' : Uid}
    (h : ∃ n, uid = .integer n)
    (h' : ∃ n, uid' = .integer n)
    (hless : uid.rank < uid'.rank) :
    NumberBelow uid uid' := by
  obtain ⟨n, rfl⟩ := h
  obtain ⟨n', rfl⟩ := h'
  exact ⟨n, n', rfl, rfl, Uid.rank_integer_lt_iff.mp hless⟩

/-- The user ids of a log of whole numbers are discerned. -/
theorem discerned_of_log
    {log : List Event}
    (huids : ∀ e ∈ log, ∃ n, e.uid = .integer n) :
    Store.Discerned (log.map (·.uid)) := by
  refine Store.discerned_of_integers fun uid huid => ?_
  obtain ⟨e, he, rfl⟩ := List.mem_map.mp huid
  exact huids e he

section Columns

variable {β γ : Type} {f : β → Uid} {rows : List β} {ns : List Int}

theorem integerUid_eq_ok_iff
    {uid : Uid}
    {n : Int} :
    integerUid uid = .ok n ↔ uid = .integer n := by
  cases uid <;> simp [integerUid]

/-- A column of user ids is read as whole numbers if and only if it holds these. -/
theorem mapM_integerUid_iff :
    rows.mapM (fun r => integerUid (f r)) = .ok ns ↔ rows.map f = ns.map .integer := by
  rw [mapM_eq_ok_iff, ← List.forall₂_eq_eq_eq, List.forall₂_map_left_iff, List.forall₂_map_right_iff]
  simp only [integerUid_eq_ok_iff]

theorem exists_mapM_integerUid
    (h : ∀ r ∈ rows, ∃ n, f r = .integer n) :
    ∃ ns, rows.mapM (fun r => integerUid (f r)) = .ok ns :=
  exists_mapM_eq_ok fun r hr => (h r hr).imp fun _ => integerUid_eq_ok_iff.mpr

/-- Cells that begin with the number that was read begin with the text of the user id. -/
theorem map_zip_integers
    (h : rows.map f = ns.map .integer)
    (cells : String → β → γ) :
    ((ns.zip rows).map fun (n, r) => cells (Decimal.text n) r) =
      rows.map fun r => cells (f r).toText r := by
  induction rows generalizing ns with
  | nil => simp
  | cons r rest ih =>
      cases ns with
      | nil => cases h
      | cons n ms =>
          obtain ⟨hn, hms⟩ := List.cons.inj h
          rw [List.zip_cons_cons, List.map_cons, List.map_cons, ih hms, hn]
          rfl

end Columns

/-! ### Columns of texts -/

section Texts

variable {cells : List Cell}

/-- Texts are told apart by what they say. -/
theorem toText_injOn_texts : Set.InjOn Cell.toText { c | ∃ t, c = .text t } := by
  rintro _ ⟨t, rfl⟩ _ ⟨t', rfl⟩ heq
  exact congrArg Cell.text heq

/-- Of texts there are as many different ones as the column has different cells. -/
theorem length_distinct_texts
    (h : ∀ c ∈ cells, ∃ t, c = .text t) :
    (Store.distinct Store.textLe cells).length = (cells.map Cell.toText).toFinset.card := by
  have himage : (cells.map Cell.toText).toFinset = cells.toFinset.image Cell.toText := by
    ext t
    simp
  rw [Store.length_distinct Store.ranked_cells fun _ _ => trivial, himage, Finset.card_image_of_injOn]
  exact toText_injOn_texts.mono fun c hc => h c (List.mem_toFinset.mp hc)

/-- Different texts are listed in ascending order. -/
theorem pairwise_distinct_texts
    (h : ∀ c ∈ cells, ∃ t, c = .text t) :
    ((Store.distinct Store.textLe cells).map Cell.toText).Pairwise (· < ·) := by
  refine List.pairwise_map.mpr ?_
  refine (Store.pairwise_distinct Store.ranked_cells fun _ _ => trivial).imp_of_mem ?_
  intro a b ha hb hless
  rw [Store.mem_distinct Store.ranked_cells fun _ _ => trivial] at ha hb
  obtain ⟨t, rfl⟩ := h a ha
  obtain ⟨t', rfl⟩ := h b hb
  exact Cell.text_lt_text.mp hless

theorem any_isBytes_eq_false
    (h : ∀ c ∈ cells, ∃ t, c = .text t) :
    cells.any Cell.isBytes = false := by
  rw [List.any_eq_false]
  intro c hc
  obtain ⟨t, rfl⟩ := h c hc
  exact Bool.false_ne_true

theorem any_isBytes_eq_true
    (h : ∃ c ∈ cells, ∃ b, c = .bytes b) :
    cells.any Cell.isBytes = true := by
  obtain ⟨c, hc, b, rfl⟩ := h
  exact List.any_eq_true.mpr ⟨.bytes b, hc, rfl⟩

/-- Texts are read as such. -/
theorem onlyTexts_of_texts
    (column : String)
    (h : ∀ c ∈ cells, ∃ t, c = .text t) :
    onlyTexts column cells = .ok () := by
  rw [onlyTexts, any_isBytes_eq_false h]
  rfl

/-- Bytes are not. -/
theorem onlyTexts_of_bytes
    (column : String)
    (h : ∃ c ∈ cells, ∃ b, c = .bytes b) :
    onlyTexts column cells = .error (.columnType .blob 0 column) := by
  rw [onlyTexts, any_isBytes_eq_true h]
  rfl

/-- Of a text it can be asked whether it is a local address. -/
theorem onlyAddresses_of_texts
    (topN : Nat)
    (h : ∀ c ∈ cells, ∃ t, c = .text t) :
    onlyAddresses topN cells = .ok () := by
  rw [onlyAddresses, any_isBytes_eq_false h]
  exact if_neg fun hboth => Bool.false_ne_true hboth.2

/-- With a limit of 0 it is not asked. -/
theorem onlyAddresses_zero
    (cells : List Cell) :
    onlyAddresses 0 cells = .ok () :=
  if_neg fun hasks => hasks.1 rfl

/-- Of bytes it cannot be asked. -/
theorem onlyAddresses_of_bytes
    {topN : Nat}
    (hpos : 0 < topN)
    (htop : topN < 2 ^ 64)
    (h : ∃ c ∈ cells, ∃ b, c = .bytes b) :
    onlyAddresses topN cells = .error (.argumentType .blob) := by
  have hasks : topN % Decimal.word64Count ≠ 0 := by
    have hmod : topN % Decimal.word64Count = topN := Nat.mod_eq_of_lt htop
    rw [hmod]
    exact hpos.ne'
  rw [onlyAddresses, any_isBytes_eq_true h]
  exact if_pos ⟨hasks, rfl⟩

/-- A cell that was read as a text is one. -/
theorem text_of_onlyTexts
    {column : String}
    (h : onlyTexts column cells = .ok ())
    {c : Cell}
    (hc : c ∈ cells) :
    c = .text c.toText := by
  unfold onlyTexts at h
  split at h
  · cases h
  · next hnone =>
      cases c with
      | text t => rfl
      | bytes b => exact absurd (List.any_eq_true.mpr ⟨_, hc, rfl⟩) hnone

end Texts

end Task
end AccessAudit
