import AccessAudit.Store.Session

/-!
# Which rows are kept

What is done on one connection changes rows, alone or in a transaction, and meanwhile another connection may log
rows.  A ledger tells which rows are kept from that and knows nothing of sessions: a transaction works on the rows
as it found them, commits them if it has written, and may only begin to write on rows that are still the kept
ones.  A session keeps exactly the rows of its ledger.
-/

namespace AccessAudit
namespace Store

/-! ### Rows -/

/-- The rows of both tables. -/
structure Rows where
  events : List Event := []
  blocks : List (Option Cell) := []
  deriving DecidableEq

namespace Rows

/-- The tables with the rows. -/
def tables (r : Rows) : Tables :=
  ⟨some r.events, some r.blocks⟩

/-- The rows after further ones are logged: all of them, or none if one of them cannot be stored. -/
def log (now : Int) (rows : List NewEvent) (r : Rows) : Rows :=
  match rows.mapM (NewEvent.stored now) with
  | .ok new => { r with events := r.events ++ new }
  | .error _ => r

/-- The rows without the events that a test selects. -/
def unlog (selected : Event → Bool) (r : Rows) : Rows :=
  { r with events := r.events.filter fun e => !selected e }

/-- The rows with a blocked entity; one that is not null is blocked once. -/
def block (entity : Value) (r : Rows) : Rows :=
  match entity.toCell? with
  | none => { r with blocks := r.blocks ++ [none] }
  | some e => if some e ∈ r.blocks then r else { r with blocks := r.blocks ++ [some e] }

/-- The rows without a blocked entity; null is not found. -/
def unblock (entity : Value) (r : Rows) : Rows :=
  match entity.toCell? with
  | none => r
  | some e => { r with blocks := r.blocks.filter fun b => b ≠ some e }

end Rows

/-! ### Deeds and ledgers -/

/-- What can be done to the rows of a database on an open connection. -/
inductive Deed
  | log (rows : List NewEvent)
  | unlog (selected : Event → Bool)
  | block (entity : Value)
  | unblock (entity : Value)
  | read
  | compact
  | begin
  | commit
  | rollBack
  /-- Another connection logs rows. -/
  | elsewhere (rows : List NewEvent)

/-- What a deed does to the session of the connection, whether or not it succeeds. -/
def Deed.perform (s : Session) : Deed → Session
  | .log rows => (s.insertEvents rows).2
  | .unlog selected => (s.deleteEvents selected).2
  | .block entity => (s.insertBlock entity).2
  | .unblock entity => (s.deleteBlock entity).2
  | .read => s.read.2
  | .compact => s.compact.2
  | .begin => s.begin.toOption.getD s
  | .commit => s.commit.toOption.getD s
  | .rollBack => s.rollBack.toOption.getD s
  | .elsewhere rows => (s.insertElsewhere rows).2

/-- How far an open transaction has come. -/
inductive Progress
  | begun
  /-- It has seen rows. -/
  | seen (rows : Rows)
  /-- It has taken the right to write, and has made the rows into these. -/
  | written (rows : Rows)

/-- The rows that are kept, and an open transaction. -/
structure Ledger where
  kept : Rows
  progress : Option Progress := none

namespace Ledger

/-- Changes the rows: the kept ones, or those of the open transaction, which may begin to write unless others
have been kept since it saw them. -/
def change (f : Rows → Rows) (l : Ledger) : Ledger :=
  match l.progress with
  | none => { l with kept := f l.kept }
  | some .begun => { l with progress := some (.written (f l.kept)) }
  | some (.seen rows) => if rows = l.kept then { l with progress := some (.written (f rows)) } else l
  | some (.written rows) => { l with progress := some (.written (f rows)) }

section Change

variable (f : Rows → Rows) (kept rows : Rows)

@[simp] theorem change_none :
    change f ⟨kept, none⟩ = ⟨f kept, none⟩ :=
  rfl

@[simp] theorem change_begun :
    change f ⟨kept, some .begun⟩ = ⟨kept, some (.written (f kept))⟩ :=
  rfl

@[simp] theorem change_seen_self :
    change f ⟨kept, some (.seen kept)⟩ = ⟨kept, some (.written (f kept))⟩ :=
  if_pos rfl

theorem change_seen_of_ne
    {kept rows : Rows}
    (h : rows ≠ kept) :
    change f ⟨kept, some (.seen rows)⟩ = ⟨kept, some (.seen rows)⟩ :=
  if_neg h

@[simp] theorem change_written :
    change f ⟨kept, some (.written rows)⟩ = ⟨kept, some (.written (f rows))⟩ :=
  rfl

end Change

/-- Enters a deed into the ledger. -/
def enter (now : Int) (l : Ledger) : Deed → Ledger
  | .log rows => l.change (Rows.log now rows)
  | .unlog selected => l.change (Rows.unlog selected)
  | .block entity => l.change (Rows.block entity)
  | .unblock entity => l.change (Rows.unblock entity)
  | .read =>
      match l.progress with
      | some .begun => { l with progress := some (.seen l.kept) }
      | _ => l
  | .compact => l
  | .begin => { l with progress := l.progress.or (some .begun) }
  | .commit =>
      match l.progress with
      | some (.written rows) => { kept := rows }
      | _ => { l with progress := none }
  | .rollBack => { l with progress := none }
  | .elsewhere rows =>
      match l.progress with
      | some (.written _) => l
      | _ => { l with kept := l.kept.log now rows }

end Ledger

/-- The rows that are kept after deeds on a connection to a database with rows. -/
def Rows.after (now : Int) (deeds : List Deed) (r : Rows) : Rows :=
  (deeds.foldl (Ledger.enter now) { kept := r }).kept

/-! ### A session and its ledger -/

/-- How a transaction of a session has come as far as the ledger tells.  Others may have logged events since it saw
the rows, which the session has noted. -/
inductive Follows (kept : Rows) : Option Transaction → Option Progress → Prop
  | none : Follows kept none none
  | begun (before : Option (List Int)) :
      Follows kept (some { referenceBefore := before }) (some .begun)
  | current (before : Option (List Int)) :
      Follows kept (some ⟨before, some kept.tables, false, false⟩) (some (.seen kept))
  | overtaken (before : Option (List Int)) (rows : Rows) (new : List Event) (hnew : new ≠ [])
      (h : kept = { rows with events := rows.events ++ new }) :
      Follows kept (some ⟨before, some rows.tables, false, true⟩) (some (.seen rows))
  | written (before : Option (List Int)) (rows : Rows) :
      Follows kept (some ⟨before, some rows.tables, true, false⟩) (some (.written rows))

/-- A session that may write stands as its ledger tells. -/
structure Mirrors (now : Int) (s : Session) (l : Ledger) : Prop where
  committed : s.committed = l.kept.tables
  follows : Follows l.kept s.transaction l.progress
  unlimited : s.limits = {}
  present : s.now = now

section Mirrors

variable {now : Int} {s : Session} {l : Ledger} {α : Type}

theorem ne_logged
    {rows : Rows}
    {new : List Event}
    (hnew : new ≠ []) :
    rows ≠ { rows with events := rows.events ++ new } :=
  fun h => hnew (List.self_eq_append_right.mp (congrArg Rows.events h))

/-- A session that mirrors a ledger sees both tables. -/
theorem Mirrors.exists_tables
    (h : Mirrors now s l) :
    ∃ r : Rows, s.tables = r.tables := by
  obtain ⟨committed, reference, transaction, limits, networks, present⟩ := s
  obtain ⟨kept, progress⟩ := l
  obtain ⟨hcommitted, hfollows, -, -⟩ := h
  dsimp only at hcommitted hfollows
  cases hfollows with
  | none => exact ⟨kept, hcommitted⟩
  | begun before => exact ⟨kept, hcommitted⟩
  | current before => exact ⟨kept, rfl⟩
  | overtaken before rows new hnew heq => exact ⟨rows, rfl⟩
  | written before rows => exact ⟨rows, rfl⟩

/-- A statement that changes the tables as a function changes rows, or fails where that function changes nothing. -/
def Changes (change : Tables → Except Fault (Tables × α)) (f : Rows → Rows) : Prop :=
  ∀ r : Rows,
    (∃ a, change r.tables = .ok ((f r).tables, a)) ∨ ((∃ e, change r.tables = .error e) ∧ f r = r)

/-- A transaction that has not been overtaken takes the right to write. -/
theorem write_transaction
    {change : Tables → Except Fault (Tables × α)}
    {f : Rows → Rows}
    {t : Transaction}
    {r : Rows}
    (hchange : Changes change f)
    (hlimits : s.limits = {})
    (htransaction : s.transaction = some t)
    (hcurrent : t.overtaken = false)
    (hview : t.view.getD s.committed = r.tables) :
    (s.write change).2 =
      { s with transaction := some { t with view := some (f r).tables, writing := true } } := by
  have htables : s.tables = r.tables := by
    rw [Session.tables, htransaction]
    exact hview
  have hfixed : s.fixView.limits = {} := hlimits
  rcases hchange r with ⟨a, hok⟩ | ⟨⟨e, herror⟩, hsame⟩
  · simp only [Session.write, hlimits, hfixed, htransaction, hcurrent, Session.tables_fixView, htables, hok]
    rfl
  · simp only [Session.write, hlimits, hfixed, htransaction, hcurrent, Session.tables_fixView, htables, herror,
      hsame]
    rfl

theorem Mirrors.write
    {change : Tables → Except Fault (Tables × α)}
    {f : Rows → Rows}
    (h : Mirrors now s l)
    (hchange : Changes change f) :
    Mirrors now (s.write change).2 (l.change f) := by
  obtain ⟨committed, reference, transaction, limits, networks, present⟩ := s
  obtain ⟨kept, progress⟩ := l
  obtain ⟨hcommitted, hfollows, hlimits, hpresent⟩ := h
  dsimp only at hcommitted hfollows hlimits hpresent
  subst hcommitted hlimits hpresent
  cases hfollows with
  | none =>
      rw [Ledger.change_none]
      rcases hchange kept with ⟨a, hok⟩ | ⟨⟨e, herror⟩, hsame⟩
      · simp only [Session.write, hok]
        exact ⟨rfl, .none, rfl, rfl⟩
      · simp only [Session.write, herror, hsame]
        exact ⟨rfl, .none, rfl, rfl⟩
  | begun before =>
      rw [write_transaction hchange rfl rfl rfl rfl, Ledger.change_begun]
      exact ⟨rfl, .written before (f kept), rfl, rfl⟩
  | current before =>
      rw [write_transaction hchange rfl rfl rfl rfl, Ledger.change_seen_self]
      exact ⟨rfl, .written before (f kept), rfl, rfl⟩
  | overtaken before rows new hnew heq =>
      -- the right to write is refused
      rw [Ledger.change_seen_of_ne f (heq ▸ ne_logged hnew)]
      exact ⟨rfl, .overtaken before rows new hnew heq, rfl, rfl⟩
  | written before rows =>
      rw [write_transaction hchange rfl rfl rfl rfl, Ledger.change_written]
      exact ⟨rfl, .written before (f rows), rfl, rfl⟩

theorem Mirrors.writeEvents
    {change : List Event → Except Fault (List Event × α)}
    {f : Rows → Rows}
    (h : Mirrors now s l)
    (hchange : Changes (fun t => do
      let (events, a) ← change (← t.getEvents)
      return ({ t with events := some events }, a)) f) :
    Mirrors now (s.writeEvents change).2 (l.change f) := by
  obtain ⟨r, htables⟩ := h.exists_tables
  rw [Session.writeEvents, htables]
  exact h.write hchange

theorem Mirrors.writeBlocks
    {change : List (Option Cell) → Except Fault (List (Option Cell) × α)}
    {f : Rows → Rows}
    (h : Mirrors now s l)
    (hchange : Changes (fun t => do
      let (blocks, a) ← change (← t.getEntities)
      return ({ t with blocks := some blocks }, a)) f) :
    Mirrors now (s.writeBlocks change).2 (l.change f) := by
  obtain ⟨r, htables⟩ := h.exists_tables
  rw [Session.writeBlocks, htables]
  exact h.write hchange

/-! ### Deeds -/

theorem Mirrors.insertEvents
    (h : Mirrors now s l)
    (rows : List NewEvent) :
    Mirrors now (s.insertEvents rows).2 (l.change (Rows.log now rows)) := by
  refine h.writeEvents fun r => ?_
  rw [h.present]
  cases hnew : rows.mapM (NewEvent.stored now) with
  | ok new =>
      left
      refine ⟨new.length, ?_⟩
      simp only [Rows.log, hnew]
      rfl
  | error e => exact .inr ⟨⟨e, rfl⟩, by simp only [Rows.log, hnew]⟩

theorem Mirrors.insertBlock
    (h : Mirrors now s l)
    (entity : Value) :
    Mirrors now (s.insertBlock entity).2 (l.change (Rows.block entity)) := by
  refine h.writeBlocks fun r => ?_
  unfold Rows.block
  cases entity.toCell? with
  | none => exact .inl ⟨1, rfl⟩
  | some e =>
      dsimp only
      by_cases hmem : some e ∈ r.blocks
      · right
        rw [if_pos hmem]
        refine ⟨⟨.duplicateBlock, ?_⟩, rfl⟩
        have hcontains : r.blocks.contains (some e) = true := List.contains_iff_mem.mpr hmem
        simp only [Rows.tables, Tables.getEntities, Option.elim, bind, Except.bind, hcontains, if_true]
      · left
        rw [if_neg hmem]
        refine ⟨1, ?_⟩
        have hcontains : r.blocks.contains (some e) = false := by
          rw [← Bool.not_eq_true, List.contains_iff_mem]
          exact hmem
        simp only [Rows.tables, Tables.getEntities, Option.elim, bind, Except.bind, hcontains]
        rfl

theorem Mirrors.deleteBlock
    (h : Mirrors now s l)
    (entity : Value) :
    Mirrors now (s.deleteBlock entity).2 (l.change (Rows.unblock entity)) := by
  refine h.writeBlocks fun r => ?_
  unfold Rows.unblock
  cases entity.toCell? with
  | none => exact .inl ⟨0, rfl⟩
  | some e => exact .inl ⟨r.blocks.length - (r.blocks.filter fun b => b ≠ some e).length, rfl⟩

/-- What another connection logs is kept at once, unless the session has written; a transaction that has seen
rows is then overtaken. -/
theorem Mirrors.insertElsewhere
    (h : Mirrors now s l)
    (rows : List NewEvent) :
    Mirrors now (s.insertElsewhere rows).2 (l.enter now (.elsewhere rows)) := by
  obtain ⟨committed, reference, transaction, limits, networks, present⟩ := s
  obtain ⟨kept, progress⟩ := l
  obtain ⟨hcommitted, hfollows, hlimits, hpresent⟩ := h
  dsimp only at hcommitted hfollows hlimits hpresent
  subst hcommitted hlimits hpresent
  cases hnew : rows.mapM (NewEvent.stored present) with
  | error e =>
      have hlog : kept.log present rows = kept := by simp only [Rows.log, hnew]
      have hsession : (Session.insertElsewhere rows
          ⟨kept.tables, reference, transaction, {}, networks, present⟩).2 =
          ⟨kept.tables, reference, transaction, {}, networks, present⟩ := by
        simp only [Session.insertElsewhere, Rows.tables, hnew]
        split <;> rfl
      have hledger : Ledger.enter present ⟨kept, progress⟩ (.elsewhere rows) = ⟨kept, progress⟩ := by
        simp only [Ledger.enter, hlog]
        split <;> rfl
      rw [hsession, hledger]
      exact ⟨rfl, hfollows, rfl, rfl⟩
  | ok new =>
      have hlog : kept.log present rows = { kept with events := kept.events ++ new } := by
        simp only [Rows.log, hnew]
      cases hfollows with
      | none =>
          simp only [Session.insertElsewhere, Ledger.enter, Rows.tables, hnew, hlog]
          exact ⟨rfl, .none, rfl, rfl⟩
      | begun before =>
          simp only [Session.insertElsewhere, Ledger.enter, Rows.tables, hnew, hlog]
          exact ⟨rfl, .begun before, rfl, rfl⟩
      | current before =>
          simp only [Session.insertElsewhere, Ledger.enter, Rows.tables, hnew, hlog]
          cases new with
          | nil =>
              rw [List.append_nil]
              exact ⟨rfl, .current before, rfl, rfl⟩
          | cons e new => exact ⟨rfl, .overtaken before kept (e :: new) (List.cons_ne_nil e new) rfl, rfl, rfl⟩
      | overtaken before seen earlier hearlier heq =>
          subst heq
          simp only [Session.insertElsewhere, Ledger.enter, Rows.tables, hnew, hlog, List.append_assoc]
          exact ⟨rfl, .overtaken before seen (earlier ++ new) (List.append_ne_nil_of_left_ne_nil hearlier new) rfl,
            rfl, rfl⟩
      | written before seen =>
          simp only [Session.insertElsewhere, Ledger.enter, Rows.tables]
          exact ⟨rfl, .written before seen, rfl, rfl⟩

theorem Mirrors.read
    (h : Mirrors now s l) :
    Mirrors now s.read.2 (l.enter now .read) := by
  obtain ⟨committed, reference, transaction, limits, networks, present⟩ := s
  obtain ⟨kept, progress⟩ := l
  obtain ⟨hcommitted, hfollows, hlimits, hpresent⟩ := h
  dsimp only at hcommitted hfollows
  subst hcommitted
  cases hfollows with
  | none => exact ⟨rfl, .none, hlimits, hpresent⟩
  | begun before => exact ⟨rfl, .current before, hlimits, hpresent⟩
  | current before => exact ⟨rfl, .current before, hlimits, hpresent⟩
  | overtaken before rows new hnew heq =>
      exact ⟨rfl, .overtaken before rows new hnew heq, hlimits, hpresent⟩
  | written before rows => exact ⟨rfl, .written before rows, hlimits, hpresent⟩

theorem Mirrors.compact
    (h : Mirrors now s l) :
    Mirrors now s.compact.2 l := by
  obtain ⟨committed, reference, transaction, limits, networks, present⟩ := s
  obtain ⟨hcommitted, hfollows, hlimits, hpresent⟩ := h
  dsimp only at hlimits
  subst hlimits
  cases transaction with
  | none => exact ⟨hcommitted, hfollows, rfl, hpresent⟩
  | some t => exact ⟨hcommitted, hfollows, rfl, hpresent⟩

theorem Mirrors.begin
    (h : Mirrors now s l) :
    Mirrors now (s.begin.toOption.getD s) (l.enter now .begin) := by
  obtain ⟨committed, reference, transaction, limits, networks, present⟩ := s
  obtain ⟨kept, progress⟩ := l
  obtain ⟨hcommitted, hfollows, hlimits, hpresent⟩ := h
  dsimp only at hfollows
  cases hfollows with
  | none => exact ⟨hcommitted, .begun reference, hlimits, hpresent⟩
  | begun before => exact ⟨hcommitted, .begun before, hlimits, hpresent⟩
  | current before => exact ⟨hcommitted, .current before, hlimits, hpresent⟩
  | overtaken before rows new hnew heq =>
      exact ⟨hcommitted, .overtaken before rows new hnew heq, hlimits, hpresent⟩
  | written before rows => exact ⟨hcommitted, .written before rows, hlimits, hpresent⟩

theorem Mirrors.commit
    (h : Mirrors now s l) :
    Mirrors now (s.commit.toOption.getD s) (l.enter now .commit) := by
  obtain ⟨committed, reference, transaction, limits, networks, present⟩ := s
  obtain ⟨kept, progress⟩ := l
  obtain ⟨hcommitted, hfollows, hlimits, hpresent⟩ := h
  dsimp only at hfollows
  cases hfollows with
  | none => exact ⟨hcommitted, .none, hlimits, hpresent⟩
  | begun before => exact ⟨hcommitted, .none, hlimits, hpresent⟩
  | current before => exact ⟨hcommitted, .none, hlimits, hpresent⟩
  | overtaken before rows new hnew heq => exact ⟨hcommitted, .none, hlimits, hpresent⟩
  | written before rows => exact ⟨rfl, .none, hlimits, hpresent⟩

theorem Mirrors.rollBack
    (h : Mirrors now s l) :
    Mirrors now (s.rollBack.toOption.getD s) (l.enter now .rollBack) := by
  obtain ⟨committed, reference, transaction, limits, networks, present⟩ := s
  obtain ⟨hcommitted, -, hlimits, hpresent⟩ := h
  cases transaction with
  | none => exact ⟨hcommitted, .none, hlimits, hpresent⟩
  | some t => exact ⟨hcommitted, .none, hlimits, hpresent⟩

/-- Each deed does to the session what is entered into the ledger. -/
theorem Mirrors.perform
    (h : Mirrors now s l)
    (deed : Deed) :
    Mirrors now (deed.perform s) (l.enter now deed) := by
  cases deed with
  | log rows => exact h.insertEvents rows
  | unlog selected => exact h.writeEvents fun r => .inl ⟨_, rfl⟩
  | block entity => exact h.insertBlock entity
  | unblock entity => exact h.deleteBlock entity
  | read => exact h.read
  | compact => exact h.compact
  | begin => exact h.begin
  | commit => exact h.commit
  | rollBack => exact h.rollBack
  | elsewhere rows => exact h.insertElsewhere rows

/-- A session keeps the rows of its ledger, whatever is done on it. -/
theorem Mirrors.committed_after
    {r : Rows}
    (h : Mirrors now s { kept := r })
    (deeds : List Deed) :
    (deeds.foldl Deed.perform s).committed = (r.after now deeds).tables := by
  suffices hall : ∀ (s : Session) (l : Ledger), Mirrors now s l →
      Mirrors now (deeds.foldl Deed.perform s) (deeds.foldl (Ledger.enter now) l) from
    (hall s _ h).committed
  induction deeds with
  | nil => exact fun s l h => h
  | cons deed deeds ih => exact fun s l h => ih _ _ (h.perform deed)

end Mirrors

end Store
end AccessAudit
