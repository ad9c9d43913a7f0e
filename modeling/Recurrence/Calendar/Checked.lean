import Recurrence.Calendar.Fault
import Recurrence.Calendar.IsoWeek

/-!
# Questions to the calendar

What the expansion of a rule asks about the calendar: lengths of months and years,
the weeks of a year, the n-th weekday of a range of dates, and the day that a
possibly negative index names. Every question checks its arguments and answers with
a `Fault` when they lie outside of the calendar, so that "no fault arises" is a
statement about the answers and not about what was left unchecked.

An index counts from 1, or from -1 backwards. `resolveMonthDay` and `resolveYearDay`
share `resolveIndex`, the one place where that is decided.
-/

namespace Recurrence.Calendar

/-- The first day of a month. The month is checked before the year. -/
def firstOfMonth (year month : Int) : Except Fault Date :=
  if 1 ≤ month ∧ month ≤ 12 then
    match Date.ofFields? year month 1 with
    | some date => .ok date
    | none => .error .yearOutOfRange
  else
    .error .monthOutOfRange

/-- Whether a year is a leap year. -/
def isLeapYear (year : Int) : Except Fault Bool := do
  let _ ← firstOfMonth year 1
  return Gregorian.isLeap year

/-- Number of days in a month. -/
def daysInMonth (year month : Int) : Except Fault Int := do
  let _ ← firstOfMonth year month
  return Gregorian.monthLength year month

/-- Number of days in a year, 365 or 366. -/
def daysInYear (year : Int) : Except Fault Int := do
  let leap ← isLeapYear year
  return if leap then 366 else 365

/-- Number of weeks that a year counts, 52 or 53. -/
def isoWeeksInYear (year : Int) : Except Fault Int :=
  if Date.supportsYear year then
    .ok (IsoWeek.weeksInYear year)
  else
    .error .isoYearOutOfRange

/-- The day that an index names among `length` days: from the start, or from the end if negative. -/
def resolveIndex (length index : Int) : Option Int :=
  if 1 ≤ index ∧ index ≤ length then some index
  else if -length ≤ index ∧ index ≤ -1 then some (length + index + 1)
  else none

/-- The day of the month that a possibly negative index names. -/
def resolveMonthDay (year month index : Int) : Except Fault (Option Int) := do
  let length ← daysInMonth year month
  return resolveIndex length index

/-- The date that a possibly negative index names among the days of a year. -/
def resolveYearDay (year index : Int) : Except Fault (Option Date) := do
  let length ← daysInYear year
  match resolveIndex length index with
  | none => return none
  | some ordinal => do
      let first ← firstOfMonth year 1
      return first.addDays? (ordinal - 1)

/--
The `ordinal`-th `weekday` of the dates from `start` to `finish`, both included;
a negative ordinal counts from `finish`. There is none if the range holds too few.
-/
def nthWeekday (start finish : Date) (weekday : Weekday) (ordinal : Int) :
    Except Fault (Option Date) :=
  if ordinal = 0 then
    .error .zeroOrdinal
  else if finish < start then
    .error .invertedPeriod
  else
    let found :=
      if 0 < ordinal then
        start.addDays? (weekday.daysAfter start.weekday + 7 * (ordinal - 1))
      else
        finish.addDays? (-(finish.weekday.daysAfter weekday + 7 * (-ordinal - 1)))
    .ok (found.filter fun date => start ≤ date && date ≤ finish)

end Recurrence.Calendar
