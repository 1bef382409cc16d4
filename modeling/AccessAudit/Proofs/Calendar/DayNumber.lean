import AccessAudit.Calendar.Date
import Mathlib.Tactic.IntervalCases

/-!
# Day numbers count the days of the calendar

The day numbers of dates are those of the Gregorian calendar: each date has the number after that of the
date before it, and every number is that of exactly one date.  So dates stand in the order of their
numbers.

A year is taken to start in March.  The day number of a date is then the number of days before its year,
before its month in that year, and before its day in that month.
-/

namespace AccessAudit
namespace Calendar

/-! ### The calendar -/

/-- Whether a year has a leap day. -/
def IsLeap (year : Int) : Prop :=
  year % 4 = 0 ∧ (year % 100 ≠ 0 ∨ year % 400 = 0)

instance (year : Int) : Decidable (IsLeap year) :=
  inferInstanceAs (Decidable (_ ∧ _))

/-- The number of days of a month. -/
def daysInMonth (year : Int) (month : Nat) : Nat :=
  if month = 2 then if IsLeap year then 29 else 28
  else if month = 4 ∨ month = 6 ∨ month = 9 ∨ month = 11 then 30
  else 31

/-- A date that the calendar has. -/
structure Date.Valid (d : Date) : Prop where
  month_pos : 1 ≤ d.month
  month_le : d.month ≤ 12
  day_pos : 1 ≤ d.day
  day_le : d.day ≤ daysInMonth d.year d.month

theorem Date.valid_iff
    (d : Date) :
    d.Valid ↔
      1 ≤ d.month ∧ d.month ≤ 12 ∧ 1 ≤ d.day ∧ d.day ≤ daysInMonth d.year d.month := by
  constructor
  · rintro ⟨h1, h2, h3, h4⟩
    exact ⟨h1, h2, h3, h4⟩
  · rintro ⟨h1, h2, h3, h4⟩
    exact ⟨h1, h2, h3, h4⟩

instance (d : Date) : Decidable d.Valid :=
  decidable_of_iff' _ d.valid_iff

theorem Date.Valid.day_le_31
    {d : Date}
    (h : d.Valid) :
    d.day ≤ 31 := by
  refine h.day_le.trans ?_
  unfold daysInMonth
  split_ifs <;> omega

/-- The next date. -/
def Date.next (d : Date) : Date :=
  if d.day < daysInMonth d.year d.month then { d with day := d.day + 1 }
  else if d.month < 12 then { d with month := d.month + 1, day := 1 }
  else ⟨d.year + 1, 1, 1⟩

/-- Whether a date comes before another one. -/
def Date.Before (d d' : Date) : Prop :=
  d.year < d'.year ∨
  d.year = d'.year ∧ (d.month < d'.month ∨ d.month = d'.month ∧ d.day < d'.day)

/-! ### Years that start in March -/

/-- Days before the first of March of a year, counted from that of the year 0. -/
def daysBeforeYear (year : Int) : Int :=
  365 * year + year / 4 - year / 100 + year / 400

/-- The number of days from the first of March of a year to that of the next. -/
def yearLength (year : Int) : Int :=
  if IsLeap (year + 1) then 366 else 365

theorem daysBeforeYear_succ
    (year : Int) :
    daysBeforeYear (year + 1) = daysBeforeYear year + yearLength year := by
  unfold daysBeforeYear yearLength
  by_cases h : IsLeap (year + 1)
  · rw [if_pos h]
    unfold IsLeap at h
    omega
  · rw [if_neg h]
    unfold IsLeap at h
    omega

theorem daysBeforeYear_mono
    {year year' : Int}
    (h : year ≤ year') :
    daysBeforeYear year ≤ daysBeforeYear year' := by
  unfold daysBeforeYear
  omega

/-- The year to which a date belongs if years start in March. -/
def Date.marchYear (d : Date) : Int :=
  if d.month ≤ 2 then d.year - 1 else d.year

/-- The number of months from March to a date. -/
def Date.marchMonth (d : Date) : Int :=
  if d.month ≤ 2 then d.month + 9 else d.month - 3

/-- The number of days from the first of March to a date. -/
def Date.marchDay (d : Date) : Int :=
  daysBeforeMonth d.marchMonth + d.day - 1

theorem Date.toDay_eq
    (d : Date) :
    d.toDay = daysBeforeYear d.marchYear + d.marchDay - 719468 := by
  have hera : ∀ year : Int, daysBeforeYear year =
      year / 400 * 146097 + (year % 400 * 365 + year % 400 / 4 - year % 400 / 100) := by
    intro year
    unfold daysBeforeYear
    omega
  unfold Date.toDay Date.marchDay
  dsimp only
  rw [hera]
  unfold Date.marchYear Date.marchMonth
  omega

theorem Date.Valid.marchDay_bounds
    {d : Date}
    (h : d.Valid) :
    0 ≤ d.marchDay ∧ d.marchDay < yearLength d.marchYear := by
  obtain ⟨year, month, day⟩ := d
  obtain ⟨hpos, hle, hday, hlast⟩ := h
  dsimp only at hpos hle hday hlast
  unfold Date.marchDay Date.marchMonth Date.marchYear yearLength daysBeforeMonth
  by_cases hleap : IsLeap year
  · interval_cases month <;> simp [daysInMonth, hleap] at hlast ⊢ <;> omega
  · interval_cases month <;> simp [daysInMonth, hleap] at hlast ⊢ <;> omega

/-- A month that is not the last of its year ends where the next one begins. -/
theorem Date.Valid.day_le_next_month
    {d : Date}
    (h : d.Valid)
    (hmonth : d.marchMonth ≤ 10) :
    daysBeforeMonth d.marchMonth + d.day ≤ daysBeforeMonth (d.marchMonth + 1) := by
  obtain ⟨year, month, day⟩ := d
  obtain ⟨hpos, hle, -, hlast⟩ := h
  dsimp only at hpos hle hlast
  unfold Date.marchMonth daysBeforeMonth at *
  interval_cases month <;> simp [daysInMonth] at hlast hmonth ⊢ <;> omega

theorem daysBeforeMonth_mono
    {month month' : Int}
    (h : month ≤ month') :
    daysBeforeMonth month ≤ daysBeforeMonth month' := by
  unfold daysBeforeMonth
  omega

/-- The order of dates, by years that start in March. -/
theorem Date.before_march
    {d d' : Date}
    (h : d.Valid)
    (h' : d'.Valid)
    (hbefore : d.Before d') :
    d.marchYear < d'.marchYear ∨
    d.marchYear = d'.marchYear ∧
      (d.marchMonth < d'.marchMonth ∨ d.marchMonth = d'.marchMonth ∧ d.day < d'.day) := by
  have hmonths := And.intro h.month_pos h.month_le
  have hmonths' := And.intro h'.month_pos h'.month_le
  unfold Date.Before at hbefore
  unfold Date.marchYear Date.marchMonth
  by_cases hearly : d.month ≤ 2 <;> by_cases hearly' : d'.month ≤ 2 <;>
    simp only [hearly, hearly', if_true, if_false] <;> omega

theorem Date.toDay_lt_of_before
    {d d' : Date}
    (h : d.Valid)
    (h' : d'.Valid)
    (hbefore : d.Before d') :
    d.toDay < d'.toDay := by
  have hbounds := h.marchDay_bounds
  have hbounds' := h'.marchDay_bounds
  rw [Date.toDay_eq, Date.toDay_eq]
  rcases Date.before_march h h' hbefore with hyear | ⟨hyear, hmonth | ⟨hmonth, hday⟩⟩
  · have hnext := daysBeforeYear_mono hyear
    have hlength := daysBeforeYear_succ d.marchYear
    omega
  · have hlast : d'.marchMonth ≤ 11 := by
      have hmonths' := h'.month_le
      unfold Date.marchMonth
      omega
    have hend := h.day_le_next_month (by omega)
    have hstart := daysBeforeMonth_mono hmonth
    have hday' := h'.day_pos
    rw [hyear]
    unfold Date.marchDay
    omega
  · rw [hyear]
    unfold Date.marchDay
    rw [hmonth]
    omega

/-- Dates stand in the order of their day numbers. -/
theorem Date.toDay_lt_iff
    {d d' : Date}
    (h : d.Valid)
    (h' : d'.Valid) :
    d.toDay < d'.toDay ↔ d.Before d' := by
  constructor
  · intro hlt
    by_contra hnot
    have hsame : d = d' ∨ d'.Before d := by
      obtain ⟨year, month, day⟩ := d
      obtain ⟨year', month', day'⟩ := d'
      unfold Date.Before at hnot ⊢
      simp only [Date.mk.injEq] at hnot ⊢
      omega
    rcases hsame with rfl | hafter
    · exact lt_irrefl _ hlt
    · exact lt_asymm hlt (Date.toDay_lt_of_before h' h hafter)
  · exact Date.toDay_lt_of_before h h'

/-- The next date has the next number. -/
theorem Date.toDay_next
    {d : Date}
    (h : d.Valid) :
    d.next.Valid ∧ d.next.toDay = d.toDay + 1 := by
  obtain ⟨year, month, day⟩ := d
  rw [Date.valid_iff] at h ⊢
  simp only [Date.toDay_eq, Date.marchDay, Date.marchMonth, Date.marchYear]
  have hyear := daysBeforeYear_succ (year - 1)
  unfold yearLength at hyear
  rw [Int.sub_add_cancel] at hyear
  unfold Date.next
  obtain ⟨hpos, hle, hday, hlast⟩ := h
  dsimp only at *
  by_cases hleap : IsLeap year
  · interval_cases month <;> simp [daysInMonth, hleap, daysBeforeMonth] at hlast hyear ⊢ <;>
      split <;> simp <;> omega
  · interval_cases month <;> simp [daysInMonth, hleap, daysBeforeMonth] at hlast hyear ⊢ <;>
      split <;> simp <;> omega

/-! ### The date of a day number -/

/-- The days of an era that are left if one is taken away in every four years. -/
def commonDays (n : Int) : Int :=
  n - n / 1460 + n / 36524 - n / 146096

theorem commonDays_mono
    {m n : Int}
    (h : m ≤ n) :
    commonDays m ≤ commonDays n := by
  have hquarters : m - m / 1460 ≤ n - n / 1460 := by omega
  have hcenturies : m / 36524 - m / 146096 ≤ n / 36524 - n / 146096 := by omega
  unfold commonDays
  omega

/-- Of each year 365 days are left, from its first day to its last. -/
theorem commonDays_year :
    ∀ year : Fin 400,
      365 * (year : Int) ≤ commonDays (daysBeforeYear (year : Int)) ∧
      commonDays (daysBeforeYear ((year : Int) + 1) - 1) < 365 * ((year : Int) + 1) := by
  decide +kernel

theorem yearOfEra_bounds
    {n : Int}
    (h0 : 0 ≤ n)
    (h1 : n < 146097) :
    let year := commonDays n / 365
    (0 ≤ year ∧ year < 400) ∧ daysBeforeYear year ≤ n ∧ n < daysBeforeYear (year + 1) := by
  intro year
  have hrange : 0 ≤ year ∧ year < 400 := by
    simp only [year, commonDays]
    omega
  have hyear : 365 * year ≤ commonDays n ∧ commonDays n < 365 * (year + 1) := by
    simp only [year]
    omega
  refine ⟨hrange, ?_, ?_⟩
  · -- a day before the year would be one of the year before it
    by_contra hlt
    have hpos : year ≠ 0 := by
      intro hzero
      rw [hzero] at hlt
      simp only [daysBeforeYear] at hlt
      omega
    obtain ⟨k, hk⟩ : ∃ k : Nat, year = (k : Int) + 1 := ⟨(year - 1).toNat, by omega⟩
    have hend := (commonDays_year ⟨k, by omega⟩).2
    have hle : commonDays n ≤ commonDays (daysBeforeYear ((k : Int) + 1) - 1) :=
      commonDays_mono (by rw [← hk]; omega)
    dsimp only at hend
    omega
  · by_contra hge
    by_cases hlast : year = 399
    · rw [hlast] at hge
      simp only [daysBeforeYear] at hge
      omega
    · obtain ⟨k, hk⟩ : ∃ k : Nat, year + 1 = (k : Int) := ⟨(year + 1).toNat, by omega⟩
      have hstart := (commonDays_year ⟨k, by omega⟩).1
      have hle : commonDays (daysBeforeYear (k : Int)) ≤ commonDays n :=
        commonDays_mono (by rw [← hk]; omega)
      dsimp only at hstart
      omega

/-- The date of a day of a year that starts in March. -/
def Date.ofMarch (year dayOfYear : Int) : Date :=
  let month := (5 * dayOfYear + 2) / 153
  let day := dayOfYear - daysBeforeMonth month + 1
  if month < 10 then ⟨year, (month + 3).toNat, day.toNat⟩
  else ⟨year + 1, (month - 9).toNat, day.toNat⟩

theorem Date.ofDay_eq_ofMarch
    (n : Int) :
    ∃ year dayOfYear : Int,
      (0 ≤ dayOfYear ∧ dayOfYear < yearLength year) ∧
      daysBeforeYear year + dayOfYear = n + 719468 ∧
      Date.ofDay n = Date.ofMarch year dayOfYear := by
  let dayOfEra := (n + 719468) % 146097
  let yearOfEra := commonDays dayOfEra / 365
  obtain ⟨⟨hpos, hlt⟩, hstart, hend⟩ : (0 ≤ yearOfEra ∧ yearOfEra < 400) ∧
      daysBeforeYear yearOfEra ≤ dayOfEra ∧ dayOfEra < daysBeforeYear (yearOfEra + 1) :=
    yearOfEra_bounds (by omega) (by omega)
  have hera : daysBeforeYear (yearOfEra + (n + 719468) / 146097 * 400) =
      daysBeforeYear yearOfEra + (n + 719468) / 146097 * 146097 := by
    unfold daysBeforeYear
    omega
  have hlength : yearLength (yearOfEra + (n + 719468) / 146097 * 400) = yearLength yearOfEra := by
    have hleap : IsLeap (yearOfEra + (n + 719468) / 146097 * 400 + 1) ↔ IsLeap (yearOfEra + 1) := by
      unfold IsLeap
      omega
    simp only [yearLength, hleap]
  have hnoEra : daysBeforeYear yearOfEra = 365 * yearOfEra + yearOfEra / 4 - yearOfEra / 100 := by
    unfold daysBeforeYear
    omega
  refine ⟨yearOfEra + (n + 719468) / 146097 * 400, dayOfEra - daysBeforeYear yearOfEra, ?_, ?_, ?_⟩
  · rw [hlength]
    rw [daysBeforeYear_succ] at hend
    omega
  · rw [hera]
    omega
  · rw [hnoEra]
    rfl

theorem Date.valid_ofMarch
    {year dayOfYear : Int}
    (h0 : 0 ≤ dayOfYear)
    (h1 : dayOfYear < yearLength year) :
    (Date.ofMarch year dayOfYear).Valid ∧
    (Date.ofMarch year dayOfYear).marchYear = year ∧
    (Date.ofMarch year dayOfYear).marchDay = dayOfYear := by
  have hlength : yearLength year ≤ 366 := by
    unfold yearLength
    split <;> omega
  obtain ⟨month, hmonth⟩ : ∃ month, month = (5 * dayOfYear + 2) / 153 := ⟨_, rfl⟩
  have hlow : 0 ≤ month := by omega
  have hhigh : month ≤ 11 := by omega
  rw [Date.valid_iff]
  unfold Date.ofMarch
  dsimp only
  rw [← hmonth]
  unfold yearLength at h1
  by_cases hleap : IsLeap (year + 1)
  · rw [if_pos hleap] at h1
    interval_cases month <;>
      simp [daysBeforeMonth, Date.marchYear, Date.marchDay, Date.marchMonth, daysInMonth, hleap] <;>
      omega
  · rw [if_neg hleap] at h1
    interval_cases month <;>
      simp [daysBeforeMonth, Date.marchYear, Date.marchDay, Date.marchMonth, daysInMonth, hleap] <;>
      omega

theorem Date.valid_ofDay
    (n : Int) :
    (Date.ofDay n).Valid := by
  obtain ⟨year, dayOfYear, ⟨h0, h1⟩, -, heq⟩ := Date.ofDay_eq_ofMarch n
  rw [heq]
  exact (Date.valid_ofMarch h0 h1).1

theorem Date.toDay_ofDay
    (n : Int) :
    (Date.ofDay n).toDay = n := by
  obtain ⟨year, dayOfYear, ⟨h0, h1⟩, hsum, heq⟩ := Date.ofDay_eq_ofMarch n
  obtain ⟨-, hyear, hday⟩ := Date.valid_ofMarch h0 h1
  rw [heq, Date.toDay_eq, hyear, hday]
  omega

theorem Date.toDay_injective
    {d d' : Date}
    (h : d.Valid)
    (h' : d'.Valid)
    (heq : d.toDay = d'.toDay) :
    d = d' := by
  have hbefore := mt (Date.toDay_lt_iff h h').mpr heq.not_lt
  have hafter := mt (Date.toDay_lt_iff h' h).mpr heq.not_gt
  obtain ⟨year, month, day⟩ := d
  obtain ⟨year', month', day'⟩ := d'
  unfold Date.Before at hbefore hafter
  simp only [Date.mk.injEq] at hbefore hafter ⊢
  omega

theorem Date.ofDay_toDay
    {d : Date}
    (h : d.Valid) :
    Date.ofDay d.toDay = d :=
  Date.toDay_injective (Date.valid_ofDay _) h (Date.toDay_ofDay _)

end Calendar
end AccessAudit
