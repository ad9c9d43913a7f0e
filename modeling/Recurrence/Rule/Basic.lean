import Recurrence.Rule.Ascending
import Recurrence.Rule.Draft
import Recurrence.Rule.Error

/-!
# Rules

A rule is a draft that has been validated and brought into normal form: its lists are
ascending and free of repetitions, an ordinal of zero is no ordinal, the anchor is a
whole second, and at most one limit is set. `Draft.build` checks in a fixed order and
reports the first thing that is wrong; `Rule.draft` is the way back.
-/

namespace Recurrence

/-- What ends a recurrence before the calendar does. -/
inductive Limit where
  /-- Stop after this many occurrences. -/
  | count (count : UInt32)
  /-- Stop after this date-time, which may still be an occurrence. -/
  | bound (bound : DateTime)
deriving DecidableEq

/-- A validated recurrence rule. -/
structure Rule where
  /-- The base unit. -/
  frequency : Frequency
  /-- Number of units from one period to the next. -/
  interval : UInt32
  /-- The walk through the periods moves on. -/
  interval_pos : 0 < interval.toNat
  /-- The start, a whole second. -/
  anchor : DateTime
  /-- What ends the recurrence, if anything does. -/
  limit : Option Limit
  /-- Months, 1 to 12. -/
  months : List Int8
  /-- Days of the month, from either end. -/
  monthDays : List Int8
  /-- Days of the year, from either end. -/
  yearDays : List Int16
  /-- Weeks of the year, from either end. -/
  weekNumbers : List Int8
  /-- Weekdays, perhaps with ordinals. -/
  weekdays : List WeekdayEntry
  /-- Hours of the day. -/
  hours : List Int8
  /-- Minutes of the hour. -/
  minutes : List Int8
  /-- Seconds of the minute. -/
  seconds : List Int8
  /-- Positions among the candidates of a period, from either end. -/
  positions : List Int16
  /-- The first day of the week. -/
  weekStart : Weekday
deriving DecidableEq

namespace Rule

/-- The greatest number of occurrences, if the rule is limited by one. -/
def count (rule : Rule) : Option UInt32 :=
  match rule.limit with
  | some (.count count) => some count
  | _ => none

/-- The date-time after which the rule stops, if it is limited by one. -/
def bound (rule : Rule) : Option DateTime :=
  match rule.limit with
  | some (.bound bound) => some bound
  | _ => none

/-- Whether the rule itself says on which days it recurs; otherwise its anchor does. -/
def hasDayRules (rule : Rule) : Bool :=
  !(rule.weekNumbers.isEmpty && rule.yearDays.isEmpty && rule.monthDays.isEmpty &&
    rule.weekdays.isEmpty)

/-- The draft in normal form that builds to the rule. -/
def draft (rule : Rule) : Draft where
  frequency := rule.frequency
  anchor := rule.anchor
  interval := some rule.interval
  count := rule.count
  bound := rule.bound
  months := rule.months
  monthDays := rule.monthDays
  yearDays := rule.yearDays
  weekNumbers := rule.weekNumbers
  weekdays := rule.weekdays
  hours := rule.hours
  minutes := rule.minutes
  seconds := rule.seconds
  positions := rule.positions
  weekStart := some rule.weekStart

end Rule

/-- Checks the values of a field in the order given, and brings them into normal form. -/
def Field.check (field : Field) (key : α → Int) (values : List α) :
    Except RuleError (List α) :=
  match values.find? fun value => !field.accepts (key value) with
  | some value => .error (.outOfRange field (key value))
  | none => .ok (ascending key values)

/-- Checks the ordinal of an entry; an ordinal of zero is dropped. -/
def WeekdayEntry.check (entry : WeekdayEntry) : Except RuleError WeekdayEntry :=
  match entry.ordinal with
  | none => .ok entry
  | some ordinal =>
      if ordinal.toInt = 0 then .ok ⟨none, entry.weekday⟩
      else if Field.weekday.accepts ordinal.toInt then .ok entry
      else .error (.outOfRange .weekday ordinal.toInt)

namespace Draft

/-- The limit of a draft; there must not be two. -/
def limit (draft : Draft) : Except RuleError (Option Limit) :=
  match draft.count, draft.bound with
  | some _, some _ => .error .countWithUntil
  | some count, none => .ok (some (.count count))
  | none, some bound => .ok (some (.bound bound))
  | none, none => .ok none

/--
Validates a draft. The checks come in the order interval, limit, weekdays, months, days
of the month, days of the year, weeks, hours, minutes, seconds, positions, and the first
one that fails decides the error.
-/
def build (draft : Draft) : Except RuleError Rule := do
  let interval := draft.interval.getD 1
  if h : 0 < interval.toNat then
    let limit ← draft.limit
    let weekdays ← draft.weekdays.mapM WeekdayEntry.check
    let months ← Field.month.check Int8.toInt draft.months
    let monthDays ← Field.monthDay.check Int8.toInt draft.monthDays
    let yearDays ← Field.yearDay.check Int16.toInt draft.yearDays
    let weekNumbers ← Field.weekNumber.check Int8.toInt draft.weekNumbers
    let hours ← Field.hour.check Int8.toInt draft.hours
    let minutes ← Field.minute.check Int8.toInt draft.minutes
    let seconds ← Field.second.check Int8.toInt draft.seconds
    let positions ← Field.position.check Int16.toInt draft.positions
    return {
      frequency := draft.frequency
      interval := interval
      interval_pos := h
      anchor := draft.anchor.wholeSecond
      limit := limit
      months := months
      monthDays := monthDays
      yearDays := yearDays
      weekNumbers := weekNumbers
      weekdays := ascending WeekdayEntry.key weekdays
      hours := hours
      minutes := minutes
      seconds := seconds
      positions := positions
      weekStart := draft.weekStart.getD .monday
    }
  else
    .error (.invalidInterval interval.toNat)

end Draft

end Recurrence
