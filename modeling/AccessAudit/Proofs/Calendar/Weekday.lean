import AccessAudit.Proofs.Calendar.DayNumber

/-!
# Weekdays go on from day to day

The weekday of a date is read off its day number.  It is the only way to give each date of the calendar a
weekday such that 1970-01-01 is a Thursday and the next date has the next weekday, in all years before it and
after it.
-/

namespace AccessAudit
namespace Calendar

/-- The weekday of the next day. -/
def Weekday.next : Weekday → Weekday
  | .sunday => .monday
  | .monday => .tuesday
  | .tuesday => .wednesday
  | .wednesday => .thursday
  | .thursday => .friday
  | .friday => .saturday
  | .saturday => .sunday

theorem Weekday.next_injective : Function.Injective Weekday.next := by
  intro w w' h
  cases w <;> cases w' <;> first | rfl | cases h

/-- The weekdays of the Gregorian calendar: 1970-01-01 was a Thursday, and the next date has the next
weekday. -/
structure CountsWeekdays (weekday : Date → Weekday) : Prop where
  epoch : weekday ⟨1970, 1, 1⟩ = .thursday
  next : ∀ d : Date, d.Valid → weekday d.next = (weekday d).next

theorem Weekday.ofDay_succ
    (n : Int) :
    Weekday.ofDay (n + 1) = (Weekday.ofDay n).next := by
  have hnext : (n + 1 + 4) % 7 = ((n + 4) % 7 + 1) % 7 := by omega
  have hlow : 0 ≤ (n + 4) % 7 := by omega
  have hhigh : (n + 4) % 7 < 7 := by omega
  unfold Weekday.ofDay
  rw [hnext]
  generalize (n + 4) % 7 = rest at hlow hhigh
  interval_cases rest <;> rfl

theorem countsWeekdays_ofDay :
    CountsWeekdays fun d => Weekday.ofDay d.toDay where
  epoch := by decide
  next d h := by rw [(Date.toDay_next h).2, Weekday.ofDay_succ]

theorem Date.next_ofDay
    (n : Int) :
    (Date.ofDay n).next = Date.ofDay (n + 1) := by
  obtain ⟨hvalid, hday⟩ := Date.toDay_next (Date.valid_ofDay n)
  refine Date.toDay_injective hvalid (Date.valid_ofDay _) ?_
  rw [hday, Date.toDay_ofDay, Date.toDay_ofDay]

theorem CountsWeekdays.eq_ofDay
    {weekday : Date → Weekday}
    (h : CountsWeekdays weekday)
    (n : Int) :
    weekday (Date.ofDay n) = Weekday.ofDay n := by
  have hnext (n : Int) : weekday (Date.ofDay (n + 1)) = (weekday (Date.ofDay n)).next := by
    rw [← Date.next_ofDay, h.next _ (Date.valid_ofDay n)]
  -- the years before 1970 are reached by going back
  induction n using Int.induction_on with
  | zero => exact h.epoch
  | succ n ih => rw [hnext, ih, Weekday.ofDay_succ]
  | pred n ih =>
      refine Weekday.next_injective ?_
      rw [← hnext, ← Weekday.ofDay_succ, Int.sub_add_cancel, ih]

/-- There is only one way to count weekdays. -/
theorem CountsWeekdays.eq_weekday
    {weekday : Date → Weekday}
    (h : CountsWeekdays weekday)
    {d : Date}
    (hd : d.Valid) :
    weekday d = Weekday.ofDay d.toDay := by
  rw [← h.eq_ofDay, Date.ofDay_toDay hd]

end Calendar
end AccessAudit
