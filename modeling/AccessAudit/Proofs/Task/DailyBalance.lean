import AccessAudit.Proofs.Calendar.MomentDate
import AccessAudit.Proofs.Calendar.Weekday
import AccessAudit.Proofs.Task.Annotation
import AccessAudit.Proofs.Task.Rows

/-!
# Daily counts lose no event

The events are gathered by the texts of their days.  An event whose date names no moment has no day, and a
single one makes the report fail; otherwise each event is counted on its day, so the counts add up to the
number of all events.  Days stand in the order of their texts, which for the years from 0 to 9999 is that of
the calendar.
-/

namespace AccessAudit
namespace Task

open Calendar (CountsWeekdays Date Moment Stamp Weekday)
open Store (Event Session)

variable {σ : Type}

/-! ### Days -/

/-- The day of an event, if its date names a moment. -/
def dayOf? (now : Int) (e : Event) : Option Date :=
  (Moment.ofText? now e.date.toText.toList).map Moment.date

theorem eventDay_eq
    (now : Int)
    (e : Event) :
    eventDay now e = (dayOf? now e).map fun d => (d.text, d) := by
  unfold eventDay dayOf?
  rw [Option.map_map]
  rfl

theorem valid_of_dayOf?
    {now : Int}
    {e : Event}
    {d : Date}
    (h : dayOf? now e = some d) :
    d.Valid ∧ d.year ≤ 9999 := by
  obtain ⟨m, hm, rfl⟩ := Option.map_eq_some_iff.mp h
  exact Calendar.valid_date_of_ofText? hm

theorem dayOf?_stamp
    (now : Int)
    {e : Event}
    {t : Stamp}
    (h : e.date = t.text) :
    dayOf? now e = some t.date := by
  obtain ⟨m, hm, hdate⟩ := t.exists_moment now
  unfold dayOf?
  rw [h, Store.Cell.toText, hm, Option.map_some, hdate]

/-- The days of a log with the numbers of their events: every day that occurs has one entry. -/
structure CountsDays (now : Int) (log : List Event) (days : List (Date × Nat)) : Prop where
  mem : ∀ d n, (d, n) ∈ days ↔ n = (log.countP fun e => dayOf? now e = some d) ∧ 0 < n
  valid : ∀ day ∈ days, day.1.Valid
  ascends : days.Pairwise fun day day' => day.1.text < day'.1.text
  chronological : days.Pairwise fun day day' =>
    0 ≤ day.1.year → 0 ≤ day'.1.year → day.1.toDay < day'.1.toDay
  total : (days.map (·.2)).sum = log.length

section Counts

variable {now : Int} {log : List Event}

/-- The days of the events in the order of the log. -/
def dayTexts (now : Int) (log : List Event) : List (String × Date) :=
  (log.map (eventDay now)).filterMap id

theorem mem_dayTexts
    {day : String × Date} :
    day ∈ dayTexts now log ↔ ∃ e ∈ log, dayOf? now e = some day.2 ∧ day.1 = day.2.text := by
  unfold dayTexts
  simp only [List.mem_filterMap, List.mem_map, id_eq, exists_exists_and_eq_and, eventDay_eq,
    Option.map_eq_some_iff]
  constructor
  · rintro ⟨e, he, d, hd, rfl⟩
    exact ⟨e, he, hd, rfl⟩
  · rintro ⟨e, he, hd, htext⟩
    exact ⟨e, he, day.2, hd, Prod.ext htext.symm rfl⟩

theorem count_dayTexts
    (d : Date) :
    ((dayTexts now log).filter fun day => day = (d.text, d)).length =
      log.countP fun e => dayOf? now e = some d := by
  unfold dayTexts
  rw [← List.countP_eq_length_filter, List.countP_filterMap, List.countP_map]
  refine List.countP_congr fun e _ => ?_
  rw [Function.comp_apply, id_eq, eventDay_eq]
  cases dayOf? now e with
  | none => simp
  | some d' =>
      by_cases heq : d' = d
      · simp [heq]
      · simp [heq]

theorem length_dayTexts
    (h : ∀ e ∈ log, dayOf? now e ≠ none) :
    (dayTexts now log).length = log.length := by
  unfold dayTexts
  rw [List.filterMap_map, List.length_filterMap_eq_countP, List.countP_eq_length]
  intro e he
  have hday := Option.isSome_iff_ne_none.mpr (h e he)
  simpa [eventDay_eq] using hday

/-- The days of the log, each with the events that are gathered under it. -/
def dayGroups (now : Int) (log : List Event) : List ((String × Date) × List (String × Date)) :=
  Store.groups (fun a b => Store.textLe a.1 b.1) id (dayTexts now log)

theorem text_of_mem_dayTexts
    {day : String × Date}
    (h : day ∈ dayTexts now log) :
    (id day).1 = (id day).2.text := by
  obtain ⟨-, -, -, htext⟩ := mem_dayTexts.mp h
  exact htext

theorem mem_of_mem_dayGroups
    {group : (String × Date) × List (String × Date)}
    (h : group ∈ dayGroups now log) :
    group.1 ∈ dayTexts now log := by
  obtain ⟨day, hday, heq⟩ := (Store.mem_keys_groups ranked_days (fun _ => text_of_mem_dayTexts) _).mp
    (List.mem_map_of_mem h)
  exact heq ▸ hday

theorem length_of_mem_dayGroups
    {group : (String × Date) × List (String × Date)}
    (h : group ∈ dayGroups now log) :
    group.2.length = log.countP fun e => dayOf? now e = some group.1.2 := by
  have hperm := Store.group_perm_filter ranked_days (fun _ => text_of_mem_dayTexts) h
  have htext : (group.1.2.text, group.1.2) = group.1 :=
    Prod.ext (text_of_mem_dayTexts (mem_of_mem_dayGroups h)).symm rfl
  rw [hperm.length_eq, ← count_dayTexts, htext]
  rfl

theorem countsDays_dayGroups
    (h : ∀ e ∈ log, dayOf? now e ≠ none) :
    CountsDays now log ((dayGroups now log).map fun group => (group.1.2, group.2.length)) := by
  have hvalid : ∀ group ∈ dayGroups now log, group.1.2.Valid ∧ group.1.2.year ≤ 9999 := by
    intro group hgroup
    obtain ⟨e, -, hday, -⟩ := mem_dayTexts.mp (mem_of_mem_dayGroups hgroup)
    exact valid_of_dayOf? hday
  have hascends : (dayGroups now log).Pairwise fun group next => group.1.2.text < next.1.2.text := by
    refine (Store.pairwise_groups ranked_days fun _ => text_of_mem_dayTexts).imp_of_mem ?_
    intro group next hgroup hnext hless
    have htext : group.1.1 = group.1.2.text := text_of_mem_dayTexts (mem_of_mem_dayGroups hgroup)
    have htext' : next.1.1 = next.1.2.text := text_of_mem_dayTexts (mem_of_mem_dayGroups hnext)
    rwa [htext, htext'] at hless
  constructor
  case mem =>
    intro d n
    rw [List.mem_map]
    constructor
    · rintro ⟨group, hgroup, heq⟩
      cases heq
      exact ⟨length_of_mem_dayGroups hgroup, List.length_pos_iff.mpr (Store.ne_nil_of_mem_groups hgroup)⟩
    · rintro ⟨rfl, hpos⟩
      obtain ⟨e, he, hday⟩ := List.countP_pos_iff.mp hpos
      have hmem : (d.text, d) ∈ dayTexts now log :=
        mem_dayTexts.mpr ⟨e, he, of_decide_eq_true hday, rfl⟩
      obtain ⟨group, hgroup, hkey⟩ := List.mem_map.mp
        ((Store.mem_keys_groups ranked_days (fun _ => text_of_mem_dayTexts) _).mpr ⟨_, hmem, rfl⟩)
      have hd : group.1.2 = d := congrArg Prod.snd hkey
      refine ⟨group, hgroup, ?_⟩
      rw [length_of_mem_dayGroups hgroup, hd]
  case valid =>
    intro day hday
    obtain ⟨group, hgroup, rfl⟩ := List.mem_map.mp hday
    exact (hvalid group hgroup).1
  case ascends => exact List.pairwise_map.mpr hascends
  case chronological =>
    refine List.pairwise_map.mpr (hascends.imp_of_mem fun {group next} hgroup hnext hless => ?_)
    intro hyear hyear'
    obtain ⟨hdate, hlast⟩ := hvalid group hgroup
    obtain ⟨hdate', hlast'⟩ := hvalid next hnext
    exact (Date.text_lt_iff hdate hdate' ⟨hyear, hlast⟩ ⟨hyear', hlast'⟩).mp hless
  case total =>
    have hrows : ((dayGroups now log).flatMap (·.2)).length = (dayTexts now log).length :=
      (Store.perm_flatMap_groups _ id _).length_eq
    rw [List.length_flatMap, length_dayTexts h] at hrows
    rw [List.map_map]
    exact hrows

end Counts

/-! ### The report -/

/-- The table of days with their weekdays and the numbers of their events. -/
def dayTable (weekday : Date → Weekday) (days : List (Date × Nat)) : Table :=
  { headers := ["log_day", "day_of_week", "event_count"]
    rows := days.map fun (d, n) => [d.text, (weekday d).short, Decimal.groupedText n]
    alignments := [("log_day", .left), ("day_of_week", .center), ("event_count", .right)] }

/-- The report on a log that has an event without a day. -/
def dayFailure : List String :=
  ["## Daily event counts",
    "ERROR:  Failed to produce daily event counts: Invalid column type Null at index: 0, name: log_day"]

theorem countEvents_of_log
    {s : Session}
    {log : List Event}
    (hlog : s.tables.events = some log) :
    countEvents s = (.ok log.length, s.fixView) := by
  simp only [countEvents, Session.read, Store.Tables.getEvents, hlog, Option.elim_some]
  rfl

theorem dailyEventCount_of_log
    {s : Session}
    {log : List Event}
    (hlog : s.tables.events = some log)
    (hne : log ≠ [])
    (c : Context σ) :
    (dailyEventCount (s, c)).1 =
      .ok (sectionOf "## Daily event counts" "daily event counts" (dailyTable s.now log)) := by
  have htables : s.fixView.tables.events = some log := by rw [Session.tables_fixView, hlog]
  have hnow : s.fixView.fixView.now = s.now := rfl
  obtain ⟨e, rest, hcons⟩ := List.exists_cons_of_ne_nil hne
  have hlength : log.length = rest.length + 1 := by rw [hcons, List.length_cons]
  unfold dailyEventCount
  dsimp only
  rw [countEvents_of_log hlog, hlength]
  simp only [inSection, onEvents, Session.read, Store.Tables.getEvents, htables, Option.elim_some, hnow]
  cases dailyTable s.now log <;> rfl

theorem dailyTable_of_days
    {weekday : Date → Weekday}
    (hweekday : CountsWeekdays weekday)
    {now : Int}
    {log : List Event}
    (h : ∀ e ∈ log, dayOf? now e ≠ none) :
    ∃ days, CountsDays now log days ∧ dailyTable now log = .ok [(dayTable weekday days).render] := by
  have hdays := countsDays_dayGroups h
  refine ⟨_, hdays, ?_⟩
  have hall : (log.map (eventDay now)).any Option.isNone = false := by
    rw [List.any_map, List.any_eq_false]
    intro e he
    have hday := h e he
    simpa [eventDay_eq] using hday
  have hrows : (dayCounts (dayTexts now log)).map (fun x => dayRow x.1 x.2) =
      ((dayGroups now log).map fun group => (group.1.2, group.2.length)).map fun x =>
        [x.1.text, (weekday x.1).short, Decimal.groupedText x.2] := by
    rw [dayCounts, List.map_map, List.map_map]
    refine List.map_congr_left fun group hgroup => ?_
    have htext : group.1.1 = group.1.2.text := text_of_mem_dayTexts (mem_of_mem_dayGroups hgroup)
    have hvalid := hdays.valid _ (List.mem_map_of_mem hgroup)
    simp only [Function.comp_apply, dayRow, htext, hweekday.eq_weekday hvalid]
  unfold dailyTable
  dsimp only
  rw [if_neg (by rw [hall]; exact Bool.false_ne_true)]
  exact congrArg
    (fun rows => Except.ok
      [(tableOf [("log_day", .left), ("day_of_week", .center), ("event_count", .right)] rows).render])
    hrows

theorem dailyTable_of_no_day
    {now : Int}
    {log : List Event}
    (h : ∃ e ∈ log, dayOf? now e = none) :
    dailyTable now log = .error (Fault.ofStore (.columnType .null 0 "log_day")) := by
  obtain ⟨e, he, hday⟩ := h
  refine if_pos (List.any_eq_true.mpr ⟨eventDay now e, List.mem_map_of_mem he, ?_⟩)
  rw [eventDay_eq, hday]
  rfl

/-- **Daily counts conserve events.**  On a log with events the report shows a table of days if the date of
every event names a moment, and one line about the failure otherwise.  The table has a row for each day that
occurs, with the number of its events; no day has two rows, the days ascend as texts and, from the year 0 on,
in the order of the calendar, and the counts add up to the number of all events.  The weekdays are those of the
calendar.  An event with a written date and time of day is counted on that date. -/
theorem dailyEventCount_conserves
    {weekday : Date → Weekday}
    (hweekday : CountsWeekdays weekday)
    (s : Session)
    (c : Context σ)
    (log : List Event)
    (hlog : s.tables.events = some log)
    (hne : log ≠ []) :
    let report := (dailyEventCount (s, c)).1
    let shows := fun table : Table => report = .ok ["## Daily event counts", table.render]
    ((∀ e ∈ log, dayOf? s.now e ≠ none) →
      ∃ days, CountsDays s.now log days ∧ shows (dayTable weekday days)) ∧
    ((∃ e ∈ log, dayOf? s.now e = none) → report = .ok dayFailure) ∧
    ((∃ table, shows table) ↔ ∀ e ∈ log, dayOf? s.now e ≠ none) ∧
    (countEvents s).1 = .ok log.length ∧
    ∀ e ∈ log, ∀ t : Stamp, e.date = t.text → dayOf? s.now e = some t.date := by
  intro report shows
  have hreport : report =
      .ok (sectionOf "## Daily event counts" "daily event counts" (dailyTable s.now log)) :=
    dailyEventCount_of_log hlog hne c
  have htable (h : ∀ e ∈ log, dayOf? s.now e ≠ none) :
      ∃ days, CountsDays s.now log days ∧ shows (dayTable weekday days) := by
    obtain ⟨days, hdays, htable⟩ := dailyTable_of_days hweekday h
    refine ⟨days, hdays, hreport.trans ?_⟩
    rw [htable]
    rfl
  have hfailure (h : ∃ e ∈ log, dayOf? s.now e = none) : report = .ok dayFailure := by
    rw [hreport, dailyTable_of_no_day h]
    exact congrArg Except.ok (by decide +kernel)
  refine ⟨htable, hfailure, ⟨?_, ?_⟩, by rw [countEvents_of_log hlog],
    fun e _ t => dayOf?_stamp s.now⟩
  · rintro ⟨table, hshows⟩ e he hday
    -- the line about the failure does not start with a bar
    have hsame : dayFailure = ["## Daily event counts", table.render] :=
      Except.ok.inj ((hfailure ⟨e, he, hday⟩).symm.trans hshows)
    obtain ⟨hline, -⟩ := List.cons.inj (List.cons.inj hsame).2
    have hhead := Sketch.head?_render table
    rw [← hline] at hhead
    exact absurd hhead (by decide)
  · intro h
    obtain ⟨days, -, hshows⟩ := htable h
    exact ⟨_, hshows⟩

/-- Events before and after midnight at the end of a leap day, the last one with a date that is no day of the
calendar and a time zone. -/
def februaryLog : List Event :=
  [⟨"192.0.2.1", .auth, .integer 1001, "2024-03-01 00:00:00"⟩,
    ⟨"192.0.2.1", .auth, .integer 1001, "2024-02-29 23:59:59"⟩,
    ⟨"192.0.2.1", .auth, .integer 1001, "2024-02-30T01:00+02:00"⟩]

/-- The leap day was a Thursday with two events, and the day after it has one.  With a further event whose date
names no moment the report fails. -/
theorem februaryLog_counted :
    let s : Session := { committed := ⟨some februaryLog, some []⟩, now := 1710892800 }
    let e : Event := ⟨"192.0.2.1", .auth, .integer 1001, "yesterday"⟩
    let s' : Session := { committed := ⟨some (e :: februaryLog), some []⟩, now := 1710892800 }
    (dailyEventCount (s, Context.idle)).1 =
      .ok
        ["## Daily event counts",
          (tableOf [("log_day", .left), ("day_of_week", .center), ("event_count", .right)]
            [["2024-02-29", "Thu", "2"], ["2024-03-01", "Fri", "1"]]).render] ∧
    (dailyEventCount (s', Context.idle)).1 = .ok dayFailure := by
  intro s e s'
  obtain ⟨hshown, -⟩ :=
    dailyEventCount_conserves Calendar.countsWeekdays_ofDay s Context.idle februaryLog rfl (by decide)
  obtain ⟨-, hfailure, -⟩ :=
    dailyEventCount_conserves Calendar.countsWeekdays_ofDay s' Context.idle (e :: februaryLog) rfl (by decide)
  obtain ⟨days, hdays, hreport⟩ := hshown (by decide +kernel)
  refine ⟨?_, hfailure ⟨e, List.mem_cons_self, by decide +kernel⟩⟩
  have hcounts : (februaryLog.countP fun e => dayOf? s.now e = some ⟨2024, 2, 29⟩) = 2 ∧
      (februaryLog.countP fun e => dayOf? s.now e = some ⟨2024, 3, 1⟩) = 1 := by
    decide +kernel
  have hmem : ∀ day, day ∈ days ↔ day ∈ [((⟨2024, 2, 29⟩ : Date), 2), (⟨2024, 3, 1⟩, 1)] := by
    rintro ⟨d, n⟩
    rw [hdays.mem, List.mem_pair]
    constructor
    · rintro ⟨rfl, hpos⟩
      obtain ⟨e, he, hday⟩ := List.countP_pos_iff.mp hpos
      have hmoments : februaryLog.map (dayOf? s.now) =
          [some ⟨2024, 3, 1⟩, some ⟨2024, 2, 29⟩, some ⟨2024, 2, 29⟩] := by
        decide +kernel
      have hlisted := List.mem_map_of_mem (f := dayOf? s.now) he
      rw [hmoments, of_decide_eq_true hday] at hlisted
      simp only [List.mem_cons, Option.some.injEq, List.not_mem_nil, or_false] at hlisted
      rcases hlisted with rfl | rfl | rfl
      · exact .inr (Prod.ext rfl hcounts.2)
      · exact .inl (Prod.ext rfl hcounts.1)
      · exact .inl (Prod.ext rfl hcounts.1)
    · rintro (heq | heq)
      · cases heq
        exact ⟨hcounts.1.symm, by decide⟩
      · cases heq
        exact ⟨hcounts.2.symm, by decide⟩
  have hascends : [((⟨2024, 2, 29⟩ : Date), 2), (⟨2024, 3, 1⟩, 1)].Pairwise
      fun day day' => day.1.text < day'.1.text := by
    decide +kernel
  have hasymm : Std.Asymm fun day day' : Date × Nat => day.1.text < day'.1.text :=
    ⟨fun _ _ => lt_asymm⟩
  obtain rfl := hdays.ascends.eq_of_mem_iff hascends hmem
  exact hreport.trans (congrArg Except.ok (by decide +kernel))

end Task
end AccessAudit
