import Recurrence.Calendar.Checked
import Recurrence.Period.Basic
import Recurrence.Rule.Basic

/-!
# Expansion of a period

A rule picks its date-times period by period. It starts from all days of the period
and narrows them down in a fixed order: by month, by week of the year, by day of the
year, by day of the month, by weekday. The days that are left are combined with the
hours, minutes and seconds of the rule, and positions pick from the result.

A list that is empty does not restrict anything, with one exception: where a rule says
nothing at all about days, the anchor supplies what its frequency leaves open. A yearly
rule recurs in the anchor's month, a yearly or monthly one on its day of the month, a
weekly one on its weekday.

The days of a period ascend and so do the lists of a rule, hence the result needs no
sorting.
-/

namespace Recurrence

/-- Keeps what passes a test that may fault. -/
def keepWhere (test : α → Except ε Bool) : List α → Except ε (List α)
  | [] => .ok []
  | a :: rest => do
      let kept ← test a
      let rest ← keepWhere test rest
      return if kept then a :: rest else rest

/-- Whether an entry selects a day among those from `first` to `last`. -/
def WeekdayEntry.selects (entry : WeekdayEntry) (first last day : Date) : Except Fault Bool :=
  if day.weekday = entry.weekday then
    match entry.ordinal with
    | none => .ok true
    | some ordinal => do
        let found ← Calendar.nthWeekday first last entry.weekday ordinal.toInt
        return found == some day
  else
    .ok false

/--
The values of a part of the clock: the one that the period fixes, if the rule admits it;
otherwise those of the rule, or the anchor's if the rule has none.
-/
def clockValues (pinned : Option Int) (values : List Int8) (anchored : Int) : List Int :=
  match pinned with
  | some value => if values.isEmpty || holds Int8.toInt values value then [value] else []
  | none => if values.isEmpty then [anchored] else values.map Int8.toInt

namespace Rule

/-- Whether the rule recurs in the month of a day. -/
def keepsMonth (rule : Rule) (day : Date) : Bool :=
  if !rule.months.isEmpty then holds Int8.toInt rule.months day.month
  else if rule.frequency = .yearly && !rule.hasDayRules then day.month == rule.anchor.date.month
  else true

/-- Whether the rule recurs in the week of a day, counted from either end of its year. -/
def keepsWeek (rule : Rule) (day : Date) : Except Fault Bool :=
  if rule.weekNumbers.isEmpty then .ok true
  else do
    let iso := IsoWeek.ofDate day
    let weeks ← Calendar.isoWeeksInYear iso.year
    return holds Int8.toInt rule.weekNumbers iso.week ||
      holds Int8.toInt rule.weekNumbers (iso.week - weeks - 1)

/-- Whether the rule recurs on this day of the year. -/
def keepsYearDay (rule : Rule) (day : Date) : Except Fault Bool :=
  if rule.yearDays.isEmpty then .ok true
  else
    let year := day.year
    rule.yearDays.anyM fun index => do
      let found ← Calendar.resolveYearDay year index.toInt
      return found == some day

/-- Whether the rule recurs on this day of the month. -/
def keepsMonthDay (rule : Rule) (day : Date) : Except Fault Bool :=
  if rule.monthDays.isEmpty then .ok true
  else
    let year := day.year
    let month := day.month
    let dayOfMonth := day.day
    rule.monthDays.anyM fun index => do
      let found ← Calendar.resolveMonthDay year month index.toInt
      return found == some dayOfMonth

/-- Whether a day is the anchor's day of the month, where the anchor decides that. -/
def keepsAnchorDay (rule : Rule) (day : Date) : Bool :=
  if (rule.frequency = .yearly || rule.frequency = .monthly) && !rule.hasDayRules then
    day.day == rule.anchor.date.day
  else
    true

/-- The period within which numbered weekdays count: a yearly rule that names months counts
within the month. -/
def weekdayScope (rule : Rule) (period : Period) (day : Date) : Period :=
  if rule.frequency = .yearly && !rule.months.isEmpty then .month day.year day.month else period

/-- Whether the rule recurs on the weekday of a day. -/
def keepsWeekday (rule : Rule) (period : Period) (day : Date) : Except Fault Bool :=
  if rule.weekdays.isEmpty then
    if rule.frequency = .weekly && !rule.hasDayRules then
      .ok (day.weekday == rule.anchor.date.weekday)
    else
      .ok true
  else do
    let scope := rule.weekdayScope period day
    let first ← scope.firstDay
    let last ← scope.lastDay
    rule.weekdays.anyM fun entry => entry.selects first last day

/-- The days of a period on which the rule recurs, in order. -/
def selectDays (rule : Rule) (period : Period) : Except Fault (List Date) := do
  let days ← period.days
  let days ← keepWhere rule.keepsWeek (days.filter rule.keepsMonth)
  let days ← keepWhere rule.keepsYearDay days
  let days ← keepWhere rule.keepsMonthDay days
  keepWhere (rule.keepsWeekday period) (days.filter rule.keepsAnchorDay)

/-- Every day together with every clock reading of the rule. -/
def crossClock (rule : Rule) (period : Period) (days : List Date) : List DateTime :=
  let hours := clockValues period.pinnedHour? rule.hours rule.anchor.hour
  let minutes := clockValues period.pinnedMinute? rule.minutes rule.anchor.minute
  let seconds := clockValues period.pinnedSecond? rule.seconds rule.anchor.secondOfMinute
  days.flatMap fun day =>
    hours.flatMap fun hour =>
      minutes.flatMap fun minute =>
        seconds.filterMap fun second => DateTime.ofClock? day hour minute second 0

/-- The greatest distance from an end at which a candidate still has a position. -/
def positionLimit : Int :=
  32767

/--
Whether the rule picks the candidate with `index` others before it out of `length`.
One that is further from either end than positions reach is not picked.
-/
def picks (rule : Rule) (length index : Nat) : Bool :=
  let fromStart : Int := index + 1
  let fromEnd : Int := length - index
  fromStart ≤ positionLimit && fromEnd ≤ positionLimit &&
    (holds Int16.toInt rule.positions fromStart || holds Int16.toInt rule.positions (-fromEnd))

/-- The candidates that the positions of the rule pick; all of them if it has none. -/
def selectPositions (rule : Rule) (candidates : List DateTime) : List DateTime :=
  if rule.positions.isEmpty then candidates
  else
    let length := candidates.length
    candidates.zipIdx.filterMap fun (t, index) =>
      if rule.picks length index then some t else none

/--
The date-times of a period that the rule selects, in ascending order. Neither the anchor
nor the limit of the rule is applied here.
-/
def expand (rule : Rule) (period : Period) : Except Fault (List DateTime) := do
  let days ← rule.selectDays period
  return rule.selectPositions (rule.crossClock period days)

end Rule

end Recurrence
