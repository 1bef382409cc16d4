import AccessAudit.Proofs.Calendar.TextOrder
import AccessAudit.Proofs.Task.Reading
import AccessAudit.Task.Maintenance

/-!
# Events expire by the day

An event is removed if the text of its date comes before that of the day of the limit.  Where dates are
written as dates with times of the years from 0 to 9999, this is to say that its day lies more than the
given number of days before the present one: the texts stand in the order of the days, also across months,
leap years and the year 0, and a limit before all dates of the store comes before all events.
-/

namespace AccessAudit

open Store (Session Event)

namespace Calendar

/-- The day number of the present. -/
def today (now : Int) : Int :=
  now / 86400

/-- The second with which the dates of the store begin, the noon of -4713-11-24. -/
def firstSecond : Int := -210866760000

/-- The present falls in one of the years from 0 to 9999. -/
def InFourDigitYears (now : Int) : Prop :=
  0 ≤ (Date.ofDay (today now)).year ∧ (Date.ofDay (today now)).year ≤ 9999

theorem first_le_toDay
    {d : Date}
    (hd : d.Valid)
    (hyear : 0 ≤ d.year) :
    -719528 ≤ d.toDay := by
  have hfirst : (Date.mk 0 1 1).toDay = -719528 := by decide
  by_contra hlt
  have hbefore := (Date.toDay_lt_iff hd (show (Date.mk 0 1 1).Valid by decide)).mp (by omega)
  have hmonth := hd.month_pos
  have hday := hd.day_pos
  unfold Date.Before at hbefore
  dsimp only at hbefore
  omega

theorem toDay_le_last
    {d : Date}
    (hd : d.Valid) :
    d.year ≤ 9999 ↔ d.toDay ≤ 2932896 := by
  have hlast : (Date.mk 9999 12 31).toDay = 2932896 := by decide
  have hiff := Date.toDay_lt_iff (d := ⟨9999, 12, 31⟩) (by decide) hd
  have hmonth := hd.month_le
  have hday := hd.parts_lt
  have hdays : d.month = 12 → d.day ≤ 31 := by
    intro heq
    have hle := hd.day_le
    rw [heq] at hle
    simpa [daysInMonth] using hle
  unfold Date.Before at hiff
  dsimp only at hiff
  omega

theorem today_bounds
    {now : Int}
    (h : InFourDigitYears now) :
    -719528 ≤ today now ∧ today now ≤ 2932896 := by
  have hfirst := first_le_toDay (Date.valid_ofDay (today now)) h.1
  have hlast := (toDay_le_last (Date.valid_ofDay (today now))).mp h.2
  rw [Date.toDay_ofDay] at hfirst hlast
  exact ⟨hfirst, hlast⟩

/-- The day of the limit, unless it lies before all dates of the store. -/
theorem cutoff?_eq
    {now : Int}
    (h : InFourDigitYears now)
    (days : Nat) :
    cutoff? now days =
      if firstSecond ≤ now - days * 86400 then some (Date.ofDay (today now - days)) else none := by
  obtain ⟨hlow, hhigh⟩ := today_bounds h
  unfold today at hlow hhigh ⊢
  unfold cutoff? dateOfMillis validMillis firstSecond epochMillis dayMillis
  simp only [Bool.and_eq_true, decide_eq_true_iff]
  have hday : (now * 1000 + 210866760000000 - (days : Int) * 86400000 - 210866760000000) / 86400000 =
      now / 86400 - days := by
    omega
  rw [hday]
  refine if_congr ?_ rfl rfl
  omega

end Calendar

/-! ### Sessions that may write -/

namespace Store.Session

/-- Nothing keeps the session from writing, and a transaction, if one is open, has the right to write or may
still take it. -/
structure MayWrite (s : Session) : Prop where
  asked : s.limits.queryOnly = false
  file : s.limits.readOnlyFile = false
  current : ∀ t, s.transaction = some t → t.overtaken = true → t.writing = true

variable {s : Session} {α : Type} {change : Tables → Except Store.Fault (Tables × α)}

theorem write_of_mayWrite
    (h : s.MayWrite)
    {new : Tables}
    {a : α}
    (hchange : change s.tables = .ok (new, a)) :
    (s.write change).1 = .ok a ∧
    (s.write change).2.tables = new ∧
    (s.write change).2.MayWrite ∧
    (s.write change).2.now = s.now := by
  obtain ⟨hquery, hfile, hcurrent⟩ := h
  cases ht : s.transaction with
  | none =>
      have hcommitted : change s.committed = .ok (new, a) := by
        simpa [tables, ht] using hchange
      have hwrite : s.write change = (.ok a, { s with committed := new }) := by
        simp [write, hquery, hfile, ht, hcommitted]
      rw [hwrite]
      refine ⟨rfl, by simp [tables, ht], ⟨hquery, hfile, hcurrent⟩, rfl⟩
  | some t =>
      have hfree : ¬(t.overtaken = true ∧ t.writing = false) := by
        rintro ⟨hovertaken, hidle⟩
        rw [hcurrent t ht hovertaken] at hidle
        cases hidle
      have hseen : change s.fixView.tables = .ok (new, a) := by rwa [tables_fixView]
      have hwrite : s.write change =
          (.ok a, { s with transaction := some { t with view := some new, writing := true } }) := by
        unfold write
        rw [if_neg (by simp [hquery])]
        simp only [ht]
        rw [if_neg (show ¬s.fixView.limits.readOnlyFile = true by simp [fixView, hfile]),
          if_neg (by simpa using hfree), hseen]
        rfl
      rw [hwrite]
      refine ⟨rfl, rfl, ⟨hquery, hfile, ?_⟩, rfl⟩
      rintro u ⟨⟩ -
      rfl

theorem write_of_not_mayWrite
    (h : ¬s.MayWrite) :
    (∃ f, (s.write change).1 = .error f) ∧ (s.write change).2.tables = s.tables := by
  by_cases hquery : s.limits.queryOnly = true
  · simp [write, hquery]
  · cases ht : s.transaction with
    | none =>
        have hfile : s.limits.readOnlyFile = true := by
          by_contra hfile
          exact h ⟨by simpa using hquery, by simpa using hfile, by simp [ht]⟩
        simp [write, hquery, ht, hfile]
    | some t =>
        by_cases hfile : s.limits.readOnlyFile = true
        · have hlimits : s.fixView.limits.readOnlyFile = true := hfile
          simp [write, hquery, ht, hlimits]
        · have hlate : t.overtaken = true ∧ t.writing = false := by
            by_contra hlate
            refine h ⟨by simpa using hquery, by simpa using hfile, ?_⟩
            rintro u hu hovertaken
            obtain rfl : t = u := Option.some.inj (ht.symm.trans hu)
            by_contra hidle
            exact hlate ⟨hovertaken, by simpa using hidle⟩
          have hlimits : s.fixView.limits.readOnlyFile = false := Bool.eq_false_iff.mpr hfile
          simp [write, hquery, ht, hlimits, hlate]

end Store.Session

namespace Task

open Calendar

variable {σ : Type}

/-- An event has expired if and only if its day lies more than the given number of days before the
present one. -/
theorem isExpired_iff
    {now : Int}
    (hnow : InFourDigitYears now)
    (days : Nat)
    {e : Event}
    (stamp : Stamp)
    (hstamp : e.date = stamp.text) :
    isExpired now days e = true ↔ stamp.date.toDay < today now - days := by
  obtain ⟨hlow, hhigh⟩ := today_bounds hnow
  have hfirst := first_le_toDay stamp.valid stamp.year_nonneg
  unfold isExpired
  rw [cutoff?_eq hnow]
  by_cases hcutoff : firstSecond ≤ now - days * 86400
  · have hvalid := Date.valid_ofDay (today now - days)
    have hyear : (Date.ofDay (today now - days)).year ≤ 9999 := by
      rw [toDay_le_last hvalid, Date.toDay_ofDay]
      omega
    simp only [if_pos hcutoff, hstamp, decide_eq_true_iff]
    rw [Store.Cell.text_lt_text, Stamp.text_lt_iff stamp hvalid hyear, Date.toDay_ofDay]
  · simp only [if_neg hcutoff, Bool.false_eq_true, false_iff]
    unfold firstSecond at hcutoff
    unfold today at *
    omega

/-! ### Removing events -/

section Removal

variable {s : Session} {log : List Event}

theorem deleteEvents_of_mayWrite
    (h : s.MayWrite)
    (hlog : s.tables.events = some log)
    (selected : Event → Bool) :
    (s.deleteEvents selected).1 = .ok (log.countP selected) ∧
    (s.deleteEvents selected).2.tables =
      { s.tables with events := some (log.filter fun e => !selected e) } ∧
    (s.deleteEvents selected).2.MayWrite ∧
    (s.deleteEvents selected).2.now = s.now := by
  have hcount : log.length - (log.filter fun e => !selected e).length = log.countP selected := by
    have hsplit := List.length_eq_countP_add_countP (p := selected) (l := log)
    rw [← List.countP_eq_length_filter]
    simp only [Bool.not_eq_true, Bool.decide_eq_false] at hsplit
    omega
  simp only [Session.deleteEvents, Session.writeEvents, hlog]
  refine Session.write_of_mayWrite h ?_
  simp [Store.Tables.getEvents, hlog, bind, Except.bind, pure, Except.pure, hcount]

theorem deleteEvents_of_not_mayWrite
    (h : ¬s.MayWrite)
    (hlog : s.tables.events = some log)
    (selected : Event → Bool) :
    (∃ f, (s.deleteEvents selected).1 = .error f) ∧
    (s.deleteEvents selected).2.tables = s.tables := by
  simp only [Session.deleteEvents, Session.writeEvents, hlog]
  exact Session.write_of_not_mayWrite h

/-- Removing expired events where the session may write. -/
theorem removeExpired_of_mayWrite
    (h : s.MayWrite)
    (hlog : s.tables.events = some log)
    (config : Configuration)
    (c : Context σ) :
    let old := isExpired s.now config.purgeDays
    let run := removeExpired config (s, c)
    run.1 =
      .ok ["## Event removal",
        s!"Removed logged events older than {config.purgeDays} day(s): {log.countP old} tuples"] ∧
    run.2.1.tables = { s.tables with events := some (log.filter fun e => !old e) } ∧
    run.2.1.MayWrite ∧
    run.2.1.now = s.now := by
  intro old run
  obtain ⟨hcount, htables, hwrite, hnow⟩ := deleteEvents_of_mayWrite h hlog old
  refine ⟨?_, htables, hwrite, hnow⟩
  simp only [run, removeExpired]
  rw [hcount]
  rfl

theorem removeExpired_of_not_mayWrite
    (h : ¬s.MayWrite)
    (hlog : s.tables.events = some log)
    (config : Configuration)
    (c : Context σ) :
    (∃ f, (removeExpired config (s, c)).1 = .error f) ∧
    (removeExpired config (s, c)).2.1.tables = s.tables := by
  obtain ⟨⟨f, hfault⟩, htables⟩ :=
    deleteEvents_of_not_mayWrite h hlog (isExpired s.now config.purgeDays)
  refine ⟨⟨(Fault.ofStore f).within (.removeEvents config.purgeDays), ?_⟩, htables⟩
  simp only [removeExpired]
  rw [hfault]
  rfl

end Removal

/-- **Exactly the expired days go.**  Let the dates of the log be dates with times of the years from 0 to
9999, and the present in these years.  Where the session may write, in a transaction or outside one, the
removed events are those whose day lies more than the given number of days before the present one; their
number is reported, and once more at the same time there is nothing left to remove.  Where it may not write,
the removal fails and changes nothing.  More days never remove what fewer days keep, and where the limit lies
before all dates of the store nothing is removed. -/
theorem removeExpired_by_day
    (config : Configuration)
    (s : Session)
    (c : Context σ)
    (hnow : InFourDigitYears s.now)
    (log : List Event)
    (hlog : s.tables.events = some log)
    (stamp : Event → Stamp)
    (hstamp : ∀ e ∈ log, e.date = (stamp e).text) :
    let old := fun e => decide ((stamp e).date.toDay < today s.now - config.purgeDays)
    let report := fun count : Nat =>
      ["## Event removal",
        s!"Removed logged events older than {config.purgeDays} day(s): {count} tuples"]
    let run := removeExpired config (s, c)
    let again := removeExpired config run.2
    (s.MayWrite →
      run.1 = .ok (report (log.countP old)) ∧
      run.2.1.tables = { s.tables with events := some (log.filter fun e => !old e) } ∧
      again.1 = .ok (report 0) ∧
      again.2.1.tables = run.2.1.tables) ∧
    (¬s.MayWrite → (∃ f, run.1 = .error f) ∧ run.2.1.tables = s.tables) ∧
    (∀ wider : Configuration, config.purgeDays ≤ wider.purgeDays →
      ∃ few many,
        run.2.1.tables.events = some few ∧
        (removeExpired wider (s, c)).2.1.tables.events = some many ∧
        few.Sublist many) ∧
    (s.now - config.purgeDays * 86400 < firstSecond → run.2.1.tables = s.tables) := by
  intro old report run again
  have hexpired (days : Nat) (e : Event) (he : e ∈ log) :
      isExpired s.now days e = decide ((stamp e).date.toDay < today s.now - days) := by
    rw [Bool.eq_iff_iff, isExpired_iff hnow days (stamp e) (hstamp e he), decide_eq_true_iff]
  have hkept (days : Nat) :
      log.filter (fun e => !isExpired s.now days e) =
        log.filter fun e => !decide ((stamp e).date.toDay < today s.now - days) :=
    List.filter_congr fun e he => by rw [hexpired days e he]
  have hcount : log.countP (isExpired s.now config.purgeDays) = log.countP old :=
    List.countP_congr fun e he => by rw [hexpired config.purgeDays e he]
  refine ⟨?writing, ?refused, ?wider, ?early⟩
  case writing =>
    intro hwrite
    obtain ⟨hreport, htables, hwrite', hnow'⟩ := removeExpired_of_mayWrite hwrite hlog config c
    rw [hcount] at hreport
    rw [hkept] at htables
    obtain ⟨hreport', htables', -, -⟩ :=
      removeExpired_of_mayWrite hwrite' (congrArg Store.Tables.events htables) config run.2.2
    -- what was kept has not expired
    have hrest : ∀ e ∈ log.filter (fun e => !old e), isExpired s.now config.purgeDays e = false := by
      intro e he
      obtain ⟨hmem, hyoung⟩ := List.mem_filter.mp he
      rw [hexpired config.purgeDays e hmem]
      simpa [old] using hyoung
    rw [hnow', List.countP_eq_zero.mpr fun e he => by simp [hrest e he]] at hreport'
    rw [hnow', List.filter_eq_self.mpr fun e he => by simp [hrest e he], htables] at htables'
    exact ⟨hreport, htables, hreport', htables'.trans htables.symm⟩
  case refused =>
    exact fun hwrite => removeExpired_of_not_mayWrite hwrite hlog config c
  case wider =>
    intro wider hle
    by_cases hwrite : s.MayWrite
    · obtain ⟨-, htables, -, -⟩ := removeExpired_of_mayWrite hwrite hlog config c
      obtain ⟨-, htables', -, -⟩ := removeExpired_of_mayWrite hwrite hlog wider c
      refine ⟨_, _, congrArg Store.Tables.events htables, congrArg Store.Tables.events htables', ?_⟩
      rw [hkept, hkept]
      refine List.monotone_filter_right log fun e hold => ?_
      simp only [Bool.not_eq_true', decide_eq_false_iff_not] at hold ⊢
      omega
    · obtain ⟨-, htables⟩ := removeExpired_of_not_mayWrite hwrite hlog config c
      obtain ⟨-, htables'⟩ := removeExpired_of_not_mayWrite hwrite hlog wider c
      exact ⟨log, log, by rw [htables, hlog], by rw [htables', hlog], List.Sublist.refl log⟩
  case early =>
    intro hearly
    by_cases hwrite : s.MayWrite
    · obtain ⟨-, htables, -, -⟩ := removeExpired_of_mayWrite hwrite hlog config c
      have hnone : (log.filter fun e => !isExpired s.now config.purgeDays e) = log := by
        refine List.filter_eq_self.mpr fun e he => ?_
        unfold isExpired
        rw [cutoff?_eq hnow, if_neg (not_le.mpr hearly)]
        rfl
      rw [htables, hnone, ← hlog]
    · exact (removeExpired_of_not_mayWrite hwrite hlog config c).2

/-- The noon of 2024-03-10, with an event on either side of the first midnight that ten days reach. -/
def leapLog : Session :=
  { committed :=
      ⟨some
        [⟨"198.51.100.7", .auth, .integer 1001, "2024-02-28 23:59:59"⟩,
          ⟨"198.51.100.7", .auth, .integer 1001, "2024-02-29 00:00:00"⟩],
        some []⟩
    now := 1710072000 }

/-- The date of an event of the log above. -/
def leapStamp (e : Event) : Stamp :=
  if e.date = "2024-02-28 23:59:59" then
    ⟨⟨2024, 2, 28⟩, 23, 59, 59, by decide, by decide, by decide, by decide, by decide, by decide⟩
  else
    ⟨⟨2024, 2, 29⟩, 0, 0, 0, by decide, by decide, by decide, by decide, by decide, by decide⟩

/-- In a leap year ten days before March 10 is February 29, which is kept. -/
theorem leapDay_kept :
    InFourDigitYears leapLog.now ∧
    leapLog.MayWrite ∧
    (removeExpired { purgeDays := 10 } (leapLog, Context.idle)).1 =
      .ok ["## Event removal", "Removed logged events older than 10 day(s): 1 tuples"] ∧
    (removeExpired { purgeDays := 10 } (leapLog, Context.idle)).2.1.committed.events =
      some [⟨"198.51.100.7", .auth, .integer 1001, "2024-02-29 00:00:00"⟩] := by
  have hnow : InFourDigitYears leapLog.now := ⟨by decide, by decide⟩
  have hwrite : leapLog.MayWrite := ⟨rfl, rfl, by simp [leapLog]⟩
  have hstamp : ∀ e ∈ leapLog.committed.events.getD [], e.date = (leapStamp e).text := by
    decide +kernel
  obtain ⟨hreport, htables, -⟩ :=
    (removeExpired_by_day { purgeDays := 10 } leapLog Context.idle hnow _ rfl leapStamp
      hstamp).1 hwrite
  refine ⟨hnow, hwrite, hreport.trans ?_, (congrArg Store.Tables.events htables).trans ?_⟩
  · decide +kernel
  · decide +kernel

end Task
end AccessAudit
