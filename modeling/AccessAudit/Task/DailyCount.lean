import AccessAudit.Task.Question

/-!
# Events per day

One row for every calendar day that occurs in the log, in ascending order, with its weekday and the
number of its events.
-/

namespace AccessAudit
namespace Task

open Store (Event Session)

variable {σ : Type}

/-- The day of an event, as text and as a date; none if its date names no moment. -/
def eventDay (now : Int) (e : Event) : Option (String × Calendar.Date) :=
  (Calendar.Moment.ofText? now e.date.toText.toList).map fun m => (m.date.text, m.date)

/-- The days that occur, each with the number of its events. -/
def dayCounts (days : List (String × Calendar.Date)) : List ((String × Calendar.Date) × Nat) :=
  (Store.groups (fun a b => Store.textLe a.1 b.1) id days).map fun (day, rows) => (day, rows.length)

/-- The row of a day. -/
def dayRow (day : String × Calendar.Date) (count : Nat) : List String :=
  [day.1, (Calendar.Weekday.ofDay day.2.toDay).short, Decimal.groupedText count]

/-- The table of days.  An event without a day makes the report fail. -/
def dailyTable (now : Int) (events : List Event) : Except Fault (List String) :=
  let days := events.map (eventDay now)
  if days.any Option.isNone then
    .error (Fault.ofStore (.columnType .null 0 "log_day"))
  else
    let rows := (dayCounts (days.filterMap id)).map fun (day, count) => dayRow day count
    .ok
      [(tableOf [("log_day", .left), ("day_of_week", .center), ("event_count", .right)] rows).render]

/-- Events per day as a section; nothing for an empty log. -/
def dailyEventCount : Reporting σ := fun (s, c) =>
  match countEvents s with
  | (.error f, s) => (.error f, (s, c))
  | (.ok 0, s) => (.ok [], (s, c))
  | (.ok _, s) =>
      let (blocks, after) :=
        inSection "## Daily event counts" "daily event counts"
          (onEvents fun s events => dailyTable s.now events) (s, c)
      (.ok blocks, after)

end Task
end AccessAudit
