import AccessAudit.Calendar.Moment
import AccessAudit.Proofs.Calendar.DayNumber
import AccessAudit.Proofs.Calendar.TextOrder
import AccessAudit.Proofs.Double.Digits

/-!
# Dates of moments

The date of a moment is a date of the calendar and of no year after 9999, whether it is kept as it was written
or counted from milliseconds.  A text that gives a date of one of the years from 0 to 9999 with a time of day
names a moment of that date.
-/

namespace AccessAudit
namespace Calendar

open Decimal

/-! ### Years and texts of dates -/

/-- No day up to that of 9999-12-31 is of a later year. -/
theorem Date.year_le_of_toDay_le
    {d : Date}
    (h : d.Valid)
    (hday : d.toDay ≤ 2932896) :
    d.year ≤ 9999 := by
  by_contra hlate
  have hlast : (Date.mk 9999 12 31).Valid := by decide
  have hbefore : (Date.mk 9999 12 31).Before d := .inl (not_le.mp hlate)
  have hless := (Date.toDay_lt_iff hlast h).mpr hbefore
  have hnumber : (Date.mk 9999 12 31).toDay = 2932896 := by decide
  omega

theorem Date.toDay_bounds
    {d : Date}
    (h : d.Valid)
    (hyear : 0 ≤ d.year ∧ d.year ≤ 9999) :
    -719528 ≤ d.toDay ∧ d.toDay ≤ 2932896 := by
  obtain ⟨hmonth, hday⟩ := And.intro h.month_pos h.day_pos
  obtain ⟨hmonth', hday'⟩ := And.intro h.month_le h.day_le_31
  constructor
  · by_contra hearly
    have hnumber : (Date.mk 0 1 1).toDay = -719528 := by decide
    have hbefore := (Date.toDay_lt_iff h (show (Date.mk 0 1 1).Valid by decide)).mp (by omega)
    unfold Date.Before at hbefore
    dsimp only at hbefore
    omega
  · by_contra hlate
    have hnumber : (Date.mk 9999 12 31).toDay = 2932896 := by decide
    have hbefore := (Date.toDay_lt_iff (show (Date.mk 9999 12 31).Valid by decide) h).mp (by omega)
    unfold Date.Before at hbefore
    dsimp only at hbefore
    omega

/-- Dates of the years from 0 to 9999 stand in the order of their texts. -/
theorem Date.text_lt_iff
    {d d' : Date}
    (h : d.Valid)
    (h' : d'.Valid)
    (hyear : 0 ≤ d.year ∧ d.year ≤ 9999)
    (hyear' : 0 ≤ d'.year ∧ d'.year ≤ 9999) :
    d.text < d'.text ↔ d.toDay < d'.toDay := by
  rw [Date.toDay_lt_iff h h', String.lt_iff_toList_lt]
  unfold Date.text
  rw [String.toList_ofList, String.toList_ofList, Date.chars_eq, Date.chars_eq, if_neg (by omega),
    if_neg (by omega), Date.unsignedChars_lt_iff h h' (by omega) (by omega)]
  unfold Date.Before
  omega

/-! ### Reading -/

theorem takeNumber_padded
    {count lo hi n : Nat}
    (hcount : 0 < count)
    (hn : n < 10 ^ count)
    (hlo : lo ≤ n)
    (hhi : n ≤ hi)
    (rest : List Char) :
    takeNumber count lo hi (padded count n ++ rest) = some (n, rest) := by
  have hlength := length_padded hcount hn
  unfold takeNumber
  dsimp only
  rw [List.take_left' hlength, List.drop_left' hlength, digitsValue_padded]
  exact if_pos ⟨hlength, all_isDigit_padded count n, hlo, hhi⟩

theorem takeNumber_eq_some
    {count lo hi n : Nat}
    {s rest : List Char}
    (h : takeNumber count lo hi s = some (n, rest)) :
    lo ≤ n ∧ n ≤ hi := by
  unfold takeNumber at h
  dsimp only at h
  obtain ⟨⟨-, -, hlo, hhi⟩, heq⟩ := Option.ite_none_right_eq_some.mp h
  cases heq
  exact ⟨hlo, hhi⟩

/-- The bounds of the parts of a date as they are read. -/
theorem bounds_of_readDate
    {s : List Char}
    {d : Date}
    {time : Option (Int × Int)}
    (h : readDate s = some (d, time)) :
    d.year ≤ 9999 ∧ (1 ≤ d.month ∧ d.month ≤ 12) ∧ 1 ≤ d.day := by
  unfold readDate at h
  simp only [bind, Option.bind_eq_some_iff] at h
  obtain ⟨⟨year, s₁⟩, hyear, s₂, -, ⟨month, s₃⟩, hmonth, s₄, -, ⟨day, s₅⟩, hday, h⟩ := h
  have hyear := takeNumber_eq_some hyear
  have hmonth := takeNumber_eq_some hmonth
  have hday := takeNumber_eq_some hday
  obtain ⟨negative, rfl⟩ :
      ∃ negative : Bool, d = ⟨if negative then -(year : Int) else year, month, day⟩ := by
    split at h
    · cases h
      exact ⟨_, rfl⟩
    · obtain ⟨time', -, h⟩ := Option.bind_eq_some_iff.mp h
      cases h
      exact ⟨_, rfl⟩
  refine ⟨?_, hmonth, hday.1⟩
  dsimp only
  split <;> omega

theorem valid_of_day_le
    {d : Date}
    (hmonth : 1 ≤ d.month ∧ d.month ≤ 12)
    (hday : 1 ≤ d.day ∧ d.day ≤ 28) :
    d.Valid := by
  refine ⟨hmonth.1, hmonth.2, hday.1, hday.2.trans ?_⟩
  unfold daysInMonth
  split_ifs <;> omega

/-- The date of a moment that a text names is a date of the calendar. -/
theorem valid_date_of_ofText?
    {now : Int}
    {s : List Char}
    {m : Moment}
    (h : Moment.ofText? now s = some m) :
    m.date.Valid ∧ m.date.year ≤ 9999 := by
  unfold Moment.ofText? at h
  dsimp only at h
  obtain ⟨hmoment, hmillis⟩ := Option.filter_eq_some_iff.mp h
  have hcounted : (dateOfMillis m.millis).Valid ∧ (dateOfMillis m.millis).year ≤ 9999 := by
    have hvalid : (dateOfMillis m.millis).Valid := Date.valid_ofDay _
    refine ⟨hvalid, Date.year_le_of_toDay_le hvalid ?_⟩
    unfold dateOfMillis
    rw [Date.toDay_ofDay]
    unfold validMillis at hmillis
    unfold epochMillis dayMillis
    simp only [Bool.and_eq_true, decide_eq_true_iff] at hmillis
    omega
  have hwritten : ∀ d, m.written = some d → d.Valid ∧ d.year ≤ 9999 := by
    intro d hd
    split at hmoment
    · next date time hread =>
        obtain ⟨-, hkept⟩ := Option.ite_none_left_eq_some.mp hmoment
        cases hkept
        obtain ⟨⟨-, hday⟩, heq⟩ := Option.ite_none_right_eq_some.mp hd
        cases heq
        obtain ⟨hyear, hmonth, hpos⟩ := bounds_of_readDate hread
        exact ⟨valid_of_day_le hmonth ⟨hpos, hday⟩, hyear⟩
    · split at hmoment
      · cases hmoment
        cases hd
      · split at hmoment
        · cases hmoment
          cases hd
        · obtain ⟨x, -, hnumber⟩ := Option.bind_eq_some_iff.mp hmoment
          unfold ofDayNumber at hnumber
          obtain ⟨-, heq⟩ := Option.ite_none_right_eq_some.mp hnumber
          cases heq
          cases hd
  unfold Moment.date
  cases hw : m.written with
  | none => exact hcounted
  | some d => exact hwritten d hw

/-! ### Dates with times -/

theorem readTime_clock
    {hour minute second : Nat}
    (hhour : hour < 24)
    (hminute : minute < 60)
    (hsecond : second < 60) :
    readTime (padded 2 hour ++ ':' :: (padded 2 minute ++ ':' :: padded 2 second)) =
      some ((hour : Int) * 3600000 + (minute : Int) * 60000 + (second : Int) * 1000, 0) := by
  unfold readTime
  rw [takeNumber_padded (by decide) (by omega) (Nat.zero_le _) (by omega)]
  simp only [bind, Option.bind_some, takeChar, if_true]
  rw [takeNumber_padded (by decide) (by omega) (Nat.zero_le _) (by omega)]
  simp only [Option.bind_some, if_true]
  rw [← List.append_nil (padded 2 second),
    takeNumber_padded (by decide) (by omega) (Nat.zero_le _) (by omega)]
  rfl

/-- The text of a stamp as it is read: a date, a blank and a time. -/
theorem Stamp.toList_text
    (t : Stamp) :
    t.text.toList =
      padded 4 t.date.year.natAbs ++ '-' :: (padded 2 t.date.month ++ '-' :: (padded 2 t.date.day ++
        ' ' :: (padded 2 t.hour ++ ':' :: (padded 2 t.minute ++ ':' :: padded 2 t.second)))) := by
  unfold Stamp.text
  rw [String.toList_ofList, Date.chars_eq, if_neg (not_lt.mpr t.year_nonneg)]
  simp [Date.unsignedChars]

theorem not_skipped_of_isDigit
    {c : Char}
    (h : c.isDigit = true) :
    (isGap c || c == 'T') = false := by
  have hletter : c ≠ 'T' := by
    rintro rfl
    exact absurd h (by decide)
  simp [isGap_of_isDigit h, hletter]

/-- A number is no gap in a text. -/
theorem dropWhile_padded
    {skips : Char → Bool}
    (hskips : ∀ {c : Char}, c.isDigit = true → skips c = false)
    (width n : Nat)
    (rest : List Char) :
    (padded width n ++ rest).dropWhile skips = padded width n ++ rest := by
  obtain ⟨c, digits, hfirst⟩ := List.exists_cons_of_ne_nil (padded_ne_nil width n)
  have hdigit : c.isDigit = true := isDigit_of_mem_padded (hfirst ▸ List.mem_cons_self)
  rw [hfirst, List.cons_append, List.dropWhile_cons_of_neg]
  rw [hskips hdigit]
  exact Bool.false_ne_true

theorem readDate_stamp
    (t : Stamp) :
    readDate t.text.toList =
      some (t.date, some
        ((t.hour : Int) * 3600000 + (t.minute : Int) * 60000 + (t.second : Int) * 1000, 0)) := by
  obtain ⟨hyear, hyear'⟩ := And.intro t.year_nonneg t.year_le
  have hday := t.valid.day_le_31
  obtain ⟨hpos, hmonth⟩ := And.intro t.valid.month_pos t.valid.month_le
  have hfirstDay := t.valid.day_pos
  obtain ⟨c, digits, hfirst⟩ := List.exists_cons_of_ne_nil (padded_ne_nil 4 t.date.year.natAbs)
  have hsign : c ≠ '-' := (sign_lt_of_mem_padded (hfirst ▸ List.mem_cons_self)).ne'
  obtain ⟨tail, htail⟩ : ∃ tail, '-' :: (padded 2 t.date.month ++ '-' :: (padded 2 t.date.day ++
      ' ' :: (padded 2 t.hour ++ ':' :: (padded 2 t.minute ++ ':' :: padded 2 t.second)))) = tail :=
    ⟨_, rfl⟩
  rw [t.toList_text, htail, hfirst]
  unfold readDate
  split
  next negative s hs =>
    have hunsigned : negative = false ∧ s = c :: digits ++ tail := by
      split at hs
      · next heq => exact absurd (List.cons.inj heq).1 hsign
      · cases hs
        exact ⟨rfl, rfl⟩
    obtain ⟨rfl, rfl⟩ := hunsigned
    rw [← hfirst, ← htail,
      takeNumber_padded (by decide) (by omega) (Nat.zero_le _) (by omega)]
    simp only [bind, Option.bind_some, takeChar, if_true]
    rw [takeNumber_padded (by decide) (by omega) (by omega) (by omega)]
    simp only [Option.bind_some, if_true]
    rw [takeNumber_padded (by decide) (by omega) (by omega) (by omega)]
    simp only [Option.bind_some]
    rw [List.dropWhile_cons_of_pos (by decide), dropWhile_padded not_skipped_of_isDigit]
    split
    · next hnil => exact absurd hnil (List.append_ne_nil_of_left_ne_nil (padded_ne_nil _ _) _)
    · rw [readTime_clock t.hour_lt t.minute_lt t.second_lt]
      have hdate : (⟨(t.date.year.natAbs : Int), t.date.month, t.date.day⟩ : Date) = t.date := by
        rw [Int.natAbs_of_nonneg hyear]
      simp only [Option.bind_some, Bool.false_eq_true, if_false, hdate]
      rfl

/-- The text of a stamp names a moment of its date. -/
theorem Stamp.exists_moment
    (now : Int)
    (t : Stamp) :
    ∃ m, Moment.ofText? now t.text.toList = some m ∧ m.date = t.date := by
  have hclock := And.intro t.hour_lt (And.intro t.minute_lt t.second_lt)
  have hbounds := Date.toDay_bounds t.valid ⟨t.year_nonneg, t.year_le⟩
  have hwhole : t.text.toList.takeWhile (· ≠ '\x00') = t.text.toList := by
    refine List.takeWhile_eq_self_iff.mpr fun c hc => ?_
    have hdigit {width n : Nat} (h : c ∈ padded width n) : c ≠ '\x00' := by
      rintro rfl
      exact absurd (isDigit_of_mem_padded h) (by decide)
    rw [t.toList_text] at hc
    simp only [List.mem_append, List.mem_cons] at hc
    rw [decide_eq_true_iff]
    rcases hc with h | rfl | h | rfl | h | rfl | h | rfl | h | rfl | h
    all_goals first | exact hdigit h | decide
  unfold Moment.ofText?
  dsimp only
  rw [hwhole, readDate_stamp]
  dsimp only [Option.getD_some]
  rw [if_neg (by have := t.year_nonneg; omega)]
  refine ⟨_, Option.filter_eq_some_iff.mpr ⟨rfl, ?_⟩, ?_⟩
  · dsimp only
    unfold validMillis Date.millis dayMillis epochMillis
    rw [Bool.and_eq_true, decide_eq_true_iff, decide_eq_true_iff]
    omega
  · unfold Moment.date
    dsimp only
    split
    · rfl
    · have hday : (t.date.millis + ((t.hour : Int) * 3600000 + (t.minute : Int) * 60000 +
            (t.second : Int) * 1000) - 0 * 60000 - epochMillis) / dayMillis = t.date.toDay := by
        simp only [Date.millis, dayMillis]
        omega
      simp only [Option.getD_none, dateOfMillis, hday]
      exact Date.ofDay_toDay t.valid

end Calendar
end AccessAudit
