import Recurrence.FixedWidth.Calendar
import Recurrence.Occurrences.Cursor

/-!
# Cursors on numbers of fixed width

The expansion of a period and the step of a cursor, with every result of a subtraction,
a sum or a product held in its width. The parts that only compare and copy are those of
`Recurrence.Expansion`.
-/

namespace Recurrence.FixedWidth

/-- Whether an entry selects a day among those from `first` to `last`. -/
def selects (entry : WeekdayEntry) (first last day : Date) : Except Halt Bool :=
  if day.weekday = entry.weekday then
    match entry.ordinal with
    | none => .ok true
    | some ordinal => do
        let found ← nthWeekday first last entry.weekday ordinal.toInt
        return found == some day
  else
    .ok false

/-- Whether the rule recurs in the week of a day, counted from either end of its year. -/
def keepsWeek (rule : Rule) (day : Date) : Except Halt Bool :=
  if rule.weekNumbers.isEmpty then .ok true
  else do
    let iso := IsoWeek.ofDate day
    let weeks ← ask (Calendar.isoWeeksInYear iso.year)
    let behind ← Width.int8.fit (iso.week - weeks)
    let fromEnd ← Width.int8.fit (behind - 1)
    return holds Int8.toInt rule.weekNumbers iso.week ||
      holds Int8.toInt rule.weekNumbers fromEnd

/-- Whether the rule recurs on this day of the year. -/
def keepsYearDay (rule : Rule) (day : Date) : Except Halt Bool :=
  if rule.yearDays.isEmpty then .ok true
  else
    rule.yearDays.anyM fun index => do
      let found ← resolveYearDay day.year index.toInt
      return found == some day

/-- Whether the rule recurs on this day of the month. -/
def keepsMonthDay (rule : Rule) (day : Date) : Except Halt Bool :=
  if rule.monthDays.isEmpty then .ok true
  else
    rule.monthDays.anyM fun index => do
      let found ← resolveMonthDay day.year day.month index.toInt
      return found == some day.day

/-- Whether the rule recurs on the weekday of a day. -/
def keepsWeekday (rule : Rule) (period : Period) (day : Date) : Except Halt Bool :=
  if rule.weekdays.isEmpty then
    if rule.frequency = .weekly && !rule.hasDayRules then
      .ok (day.weekday == rule.anchor.date.weekday)
    else
      .ok true
  else do
    let scope := rule.weekdayScope period day
    let first ← ask scope.firstDay
    let last ← ask scope.lastDay
    rule.weekdays.anyM fun entry => selects entry first last day

/-- The days of a period on which the rule recurs, in order. -/
def selectDays (rule : Rule) (period : Period) : Except Halt (List Date) := do
  let days ← ask period.days
  let days ← keepWhere (keepsWeek rule) (days.filter rule.keepsMonth)
  let days ← keepWhere (keepsYearDay rule) days
  let days ← keepWhere (keepsMonthDay rule) days
  keepWhere (keepsWeekday rule period) (days.filter rule.keepsAnchorDay)

/-- Every day together with every clock reading of the rule; their number is counted first. -/
def crossClock (rule : Rule) (period : Period) (days : List Date) :
    Except Halt (List DateTime) := do
  let hours := clockValues period.pinnedHour? rule.hours rule.anchor.hour
  let minutes := clockValues period.pinnedMinute? rule.minutes rule.anchor.minute
  let seconds := clockValues period.pinnedSecond? rule.seconds rule.anchor.secondOfMinute
  let room ← Width.word64.fit (days.length * hours.length)
  let room ← Width.word64.fit (room * minutes.length)
  let _ ← Width.word64.fit (room * seconds.length)
  return rule.crossClock period days

/-- Whether the rule picks the candidate with `index` others before it out of `length`. -/
def picks (rule : Rule) (length index : Nat) : Except Halt Bool := do
  let fromStart ← Width.word64.fit (index + 1)
  let fromEnd ← Width.word64.fit (length - index)
  if fromEnd ≤ Rule.positionLimit then
    let place ← Width.int16.fit (-fromEnd)
    return fromStart ≤ Rule.positionLimit &&
      (holds Int16.toInt rule.positions fromStart || holds Int16.toInt rule.positions place)
  else
    return false

/-- The candidates that the positions of the rule pick; all of them if it has none. -/
def selectPositions (rule : Rule) (candidates : List DateTime) : Except Halt (List DateTime) :=
  if rule.positions.isEmpty then .ok candidates
  else do
    let picked ← keepWhere (fun (_, index) => picks rule candidates.length index)
      candidates.zipIdx
    return picked.map Prod.fst

/-- The date-times of a period that the rule selects, in ascending order. -/
def expand (rule : Rule) (period : Period) : Except Halt (List DateTime) := do
  let days ← selectDays rule period
  let candidates ← crossClock rule period days
  selectPositions rule candidates

/-- The walk behind its next period, which is counted. -/
def visit (walk : Walk) (period : Period) : Except Halt Walk := do
  let upcoming ← advance period walk.interval
  let _ ← Width.word64.fit (walk.steps + 1)
  return { walk with upcoming := upcoming, steps := walk.steps + 1 }

/-- Does one thing towards the next occurrence. -/
def step (cursor : Cursor) : Except Halt Cursor.Step :=
  match cursor.place with
  | .exhausted => .ok .finish
  | .positioned walk pending =>
      if cursor.rule.isUsedUp cursor.emitted then .ok .finish
      else
        match pending with
        | t :: pending =>
            if t < cursor.rule.anchor then .ok (.resume (.positioned walk pending))
            else if cursor.rule.isPast t then .ok .finish
            else do
              let _ ← Width.word64.fit (cursor.emitted + 1)
              return .emit t (.positioned walk pending)
        | [] =>
            match walk.upcoming with
            | none => .ok .finish
            | some period => do
                let start ← ask period.start
                if cursor.rule.isPast start then
                  return .finish
                else
                  let walk ← visit walk period
                  let pending ← expand cursor.rule period
                  return .resume (.positioned walk pending)

/-- The cursor before the first occurrence of a rule. -/
def cursor (rule : Rule) : Except Halt Cursor := do
  let first ← containing rule.frequency rule.anchor rule.weekStart
  return {
    rule := rule
    place := .positioned { Walk.ofRule rule with upcoming := some first } []
    emitted := 0 }

end Recurrence.FixedWidth
