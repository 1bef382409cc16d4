import AccessAudit.Proofs.Basic
import AccessAudit.Proofs.Store.KeyOrder
import AccessAudit.Proofs.Store.Ledger

/-!
# What the column of user ids comes to hold

A column of whole numbers takes what it can for whole numbers of 64 bits: floating-point numbers and texts that
are equal to one.  What it keeps of the rest it would keep again.  Rows are logged on two connections, and in
transactions that are kept or dropped; whatever is done, each user id in the log is one that the column has kept.
-/

namespace AccessAudit
namespace Store

/-! ### One value -/

theorem Uid.kept_ofDouble
    {x : Double}
    (hx : x ≠ .nan) :
    (Uid.ofDouble x).Kept := by
  cases hvalue : x.toRat? with
  | none =>
      have hreal : Uid.ofDouble x = .real x := by simp [Uid.ofDouble, hvalue]
      rw [hreal]
      exact ⟨hx, hreal⟩
  | some r =>
      by_cases hwhole : r.den = 1 ∧ -(Decimal.int64Max : Int) ≤ r.num ∧ r.num < (Decimal.int64Max : Int)
      · have hinteger : Uid.ofDouble x = .integer r.num := by simp [Uid.ofDouble, hvalue, hwhole]
        rw [hinteger]
        simp only [Uid.Kept, fitsInt64, Bool.and_eq_true, decide_eq_true_iff]
        omega
      · have hreal : Uid.ofDouble x = .real x := by simp [Uid.ofDouble, hvalue, hwhole]
        rw [hreal]
        exact ⟨hx, hreal⟩

theorem ofRat_ne_nan
    (x : Rat) :
    Double.ofRat x ≠ .nan := by
  intro h
  unfold Double.ofRat at h
  split at h
  · cases h
  · split at h
    · cases h
    · cases h

theorem ofDecimal_ne_nan
    (negative : Bool)
    (digits : Nat)
    (exponent : Int) :
    Double.ofDecimal negative digits exponent ≠ .nan := by
  intro h
  unfold Double.ofDecimal at h
  dsimp only at h
  split at h
  · cases h
  · split at h
    · cases h
    · cases h

theorem readNumber_ne_nan
    {s : List Char}
    {x : Double}
    (h : Calendar.readNumber s = some x) :
    x ≠ .nan := by
  unfold Calendar.readNumber at h
  dsimp only at h
  obtain ⟨mantissa, -, h⟩ := Option.bind_eq_some_iff.mp h
  obtain ⟨-, h⟩ := Option.ite_none_right_eq_some.mp h
  obtain rfl := Option.some.inj h
  exact ofDecimal_ne_nan _ _ _

theorem Uid.kept_ofText
    (s : String) :
    (Uid.ofText s).Kept := by
  unfold Uid.ofText
  split
  · next n =>
      split
      · assumption
      · exact Uid.kept_ofDouble (ofRat_ne_nan _)
  · split
    · next x hx => exact Uid.kept_ofDouble (readNumber_ne_nan hx)
    · trivial

/-- A column of whole numbers holds such ids, whatever is put into it. -/
theorem Uid.kept_toUid?
    {v : Value}
    (hv : ∀ n, v = .integer n → fitsInt64 n = true)
    {uid : Uid}
    (h : v.toUid? = some uid) :
    uid.Kept := by
  cases v with
  | null => cases h
  | integer n =>
      cases h
      exact hv n rfl
  | real x =>
      cases x with
      | nan => cases h
      | signed negative rank hrank =>
          cases h
          exact Uid.kept_ofDouble nofun
  | text s =>
      cases h
      exact Uid.kept_ofText s
  | bytes b =>
      cases h
      trivial

/-! ### Rows -/

/-- A row to be logged.  If its user id is bound as a whole number, this is one of 64 bits. -/
def NewEvent.Fits (row : NewEvent) : Prop :=
  ∀ n, row.uid = .integer n → fitsInt64 n = true

theorem NewEvent.kept_stored
    {row : NewEvent}
    (hrow : row.Fits)
    {now : Int}
    {e : Event}
    (h : row.stored now = .ok e) :
    e.uid.Kept := by
  unfold NewEvent.stored at h
  obtain ⟨source, -, h⟩ := exists_of_bind_eq_ok h
  obtain ⟨kind, -, h⟩ := exists_of_bind_eq_ok h
  obtain ⟨uid, huid, h⟩ := exists_of_bind_eq_ok h
  -- whether or not a date is given, the user id is taken over as it is
  have hsame : e.uid = uid := by
    dsimp only at h
    split at h
    all_goals
      obtain ⟨date, -, h⟩ := exists_of_bind_eq_ok h
      obtain ⟨known, -, h⟩ := exists_of_bind_eq_ok h
      cases h
      rfl
  rw [hsame]
  cases hkept : row.uid.toUid? with
  | none =>
      rw [hkept] at huid
      cases huid
  | some kept =>
      rw [hkept] at huid
      cases huid
      exact Uid.kept_toUid? hrow hkept

theorem NewEvent.kept_of_mapM_stored
    {rows : List NewEvent}
    (hrows : ∀ row ∈ rows, row.Fits)
    {now : Int}
    {events : List Event}
    (h : rows.mapM (NewEvent.stored now) = .ok events) :
    ∀ e ∈ events, e.uid.Kept := by
  rw [mapM_eq_ok_iff] at h
  induction h with
  | nil => nofun
  | cons hstored _ ih =>
      obtain ⟨hrow, hrest⟩ := List.forall_mem_cons.mp hrows
      exact List.forall_mem_cons.mpr ⟨NewEvent.kept_stored hrow hstored, ih hrest⟩

/-- The user ids of the rows are such as the column holds. -/
def Rows.HoldsIds (r : Rows) : Prop :=
  ∀ e ∈ r.events, e.uid.Kept

namespace Rows

variable {r : Rows}

theorem HoldsIds.log
    (h : r.HoldsIds)
    {rows : List NewEvent}
    (hrows : ∀ row ∈ rows, row.Fits)
    (now : Int) :
    (r.log now rows).HoldsIds := by
  unfold Rows.log
  split
  · next new hnew =>
      intro e he
      rcases List.mem_append.mp he with he | he
      · exact h e he
      · exact NewEvent.kept_of_mapM_stored hrows hnew e he
  · exact h

theorem HoldsIds.unlog
    (h : r.HoldsIds)
    (selected : Event → Bool) :
    (r.unlog selected).HoldsIds :=
  fun e he => h e (List.mem_of_mem_filter he)

theorem HoldsIds.block
    (h : r.HoldsIds)
    (entity : Value) :
    (r.block entity).HoldsIds := by
  unfold Rows.block
  split
  · exact h
  · split
    · exact h
    · exact h

theorem HoldsIds.unblock
    (h : r.HoldsIds)
    (entity : Value) :
    (r.unblock entity).HoldsIds := by
  unfold Rows.unblock
  split
  · exact h
  · exact h

end Rows

/-! ### Deeds -/

/-- The rows that a deed logs have user ids that fit. -/
def Deed.Fits : Deed → Prop
  | .log rows => ∀ row ∈ rows, row.Fits
  | .elsewhere rows => ∀ row ∈ rows, row.Fits
  | _ => True

/-- The kept rows, and those of an open transaction, have user ids such as the column holds. -/
structure Ledger.HoldsIds (l : Ledger) : Prop where
  kept : l.kept.HoldsIds
  seen : ∀ rows, l.progress = some (.seen rows) → rows.HoldsIds
  written : ∀ rows, l.progress = some (.written rows) → rows.HoldsIds

namespace Ledger

variable {l : Ledger}

/-- With the open transaction dropped, or before it has seen rows, only the kept ones count. -/
theorem HoldsIds.of_kept
    {kept : Rows}
    (h : kept.HoldsIds)
    {progress : Option Progress}
    (hprogress : progress = none ∨ progress = some .begun) :
    HoldsIds ⟨kept, progress⟩ := by
  rcases hprogress with rfl | rfl
  · exact ⟨h, nofun, nofun⟩
  · exact ⟨h, nofun, nofun⟩

theorem holdsIds_written
    {kept rows : Rows}
    (hkept : kept.HoldsIds)
    (hrows : rows.HoldsIds) :
    HoldsIds ⟨kept, some (.written rows)⟩ :=
  ⟨hkept, nofun, fun _ h => by cases h; exact hrows⟩

theorem HoldsIds.change
    (h : l.HoldsIds)
    {f : Rows → Rows}
    (hf : ∀ r : Rows, r.HoldsIds → (f r).HoldsIds) :
    (l.change f).HoldsIds := by
  obtain ⟨kept, progress⟩ := l
  obtain ⟨hkept, hseen, hwritten⟩ := h
  unfold Ledger.change
  cases progress with
  | none => exact .of_kept (hf kept hkept) (.inl rfl)
  | some progress =>
      cases progress with
      | begun => exact holdsIds_written hkept (hf kept hkept)
      | seen rows =>
          dsimp only
          split
          · exact holdsIds_written hkept (hf rows (hseen rows rfl))
          · exact ⟨hkept, hseen, hwritten⟩
      | written rows => exact holdsIds_written hkept (hf rows (hwritten rows rfl))

/-- No deed brings in a user id that the column would not hold. -/
theorem HoldsIds.enter
    (h : l.HoldsIds)
    (now : Int)
    {deed : Deed}
    (hdeed : deed.Fits) :
    (l.enter now deed).HoldsIds := by
  cases deed with
  | log rows => exact h.change fun r hr => hr.log hdeed now
  | unlog selected => exact h.change fun r hr => hr.unlog selected
  | block entity => exact h.change fun r hr => hr.block entity
  | unblock entity => exact h.change fun r hr => hr.unblock entity
  | compact => exact h
  | rollBack => exact .of_kept h.kept (.inl rfl)
  | read =>
      obtain ⟨kept, _ | progress⟩ := l
      · exact h
      · cases progress with
        | begun => exact ⟨h.kept, fun _ hseen => by cases hseen; exact h.kept, nofun⟩
        | seen rows => exact h
        | written rows => exact h
  | begin =>
      obtain ⟨kept, _ | progress⟩ := l
      · exact .of_kept h.kept (.inr rfl)
      · exact h
  | commit =>
      obtain ⟨kept, _ | progress⟩ := l
      · exact h
      · cases progress with
        | begun => exact .of_kept h.kept (.inl rfl)
        | seen rows => exact .of_kept h.kept (.inl rfl)
        | written rows => exact .of_kept (h.written rows rfl) (.inl rfl)
  | elsewhere rows =>
      have hlogged := h.kept.log hdeed now
      obtain ⟨kept, _ | progress⟩ := l
      · exact .of_kept hlogged (.inl rfl)
      · cases progress with
        | begun => exact .of_kept hlogged (.inr rfl)
        | seen rows => exact ⟨hlogged, fun _ hseen => h.seen _ hseen, nofun⟩
        | written rows => exact h

end Ledger

/-- The rows that are kept after deeds have user ids such as the column holds. -/
theorem Rows.HoldsIds.after
    {r : Rows}
    (h : r.HoldsIds)
    (now : Int)
    {deeds : List Deed}
    (hdeeds : ∀ deed ∈ deeds, deed.Fits) :
    (r.after now deeds).HoldsIds := by
  suffices hall : ∀ l : Ledger, l.HoldsIds → (deeds.foldl (Ledger.enter now) l).HoldsIds from
    (hall _ (.of_kept h (.inl rfl))).kept
  induction deeds with
  | nil => exact fun _ hl => hl
  | cons deed rest ih =>
      obtain ⟨hdeed, hrest⟩ := List.forall_mem_cons.mp hdeeds
      exact fun l hl => ih hrest _ (hl.enter now hdeed)

/-- **What a log comes to hold.**  Let a session start on rows whose user ids the column holds.  Whatever is done on
it, and logged beside it, with whole numbers of 64 bits, the log then holds user ids that the column holds. -/
theorem kept_after_deeds
    {now : Int}
    {s : Session}
    {r : Rows}
    (hsession : Mirrors now s { kept := r })
    (hrows : r.HoldsIds)
    {deeds : List Deed}
    (hdeeds : ∀ deed ∈ deeds, deed.Fits) :
    ∃ log, (deeds.foldl Deed.perform s).committed.events = some log ∧ ∀ e ∈ log, e.uid.Kept := by
  rw [hsession.committed_after deeds]
  exact ⟨_, rfl, hrows.after now hdeeds⟩

end Store
end AccessAudit
