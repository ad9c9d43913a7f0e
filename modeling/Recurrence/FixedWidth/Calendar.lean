import Recurrence.Calendar.Checked
import Recurrence.Period.Basic

/-!
# The calendar and the periods on numbers of fixed width

The library counts with integers that have no end. Here the same computations are done
on numbers of eight, sixteen and sixty-four bits, an operation at a time and in a
fixed order: each result goes through `Width.fit`, which stops the computation when
the width does not have it. What is asked of the calendar as such, which date has a
number or which fields, is taken from there by `ask`, together with its faults.

A time of day is put together from its parts here, and stops the computation if there
is no such time.
-/

namespace Recurrence.FixedWidth

/-- A width of numbers. -/
inductive Width where
  /-- Eight bits with a sign. -/
  | int8
  /-- Sixteen bits with a sign. -/
  | int16
  /-- Sixty-four bits with a sign. -/
  | int64
  /-- Sixty-four bits without a sign. -/
  | word64
deriving DecidableEq, Repr

namespace Width

/-- The least number of a width. -/
def least : Width → Int
  | int8 => -128
  | int16 => -32768
  | int64 => -9223372036854775808
  | word64 => 0

/-- The greatest number of a width. -/
def greatest : Width → Int
  | int8 => 127
  | int16 => 32767
  | int64 => 9223372036854775807
  | word64 => 18446744073709551615

end Width

/-- Why a computation on numbers of fixed width stops. -/
inductive Halt where
  /-- A question has no answer. -/
  | fault (fault : Fault)
  /-- A time of day does not exist. -/
  | noSuchTime
  /-- The result of an operation does not fit its width. -/
  | overflow (width : Width) (result : Int)
deriving DecidableEq, Repr

/-- The result of an operation, if its width has it. -/
def Width.fit (width : Width) (result : Int) : Except Halt Int :=
  if width.least ≤ result ∧ result ≤ width.greatest then .ok result
  else .error (.overflow width result)

/-- An answer that is given without counting. -/
def ask (answer : Except Fault α) : Except Halt α :=
  answer.mapError .fault

/-! ## Questions to the calendar -/

/-- The day that an index names among `length` days. -/
def resolveIndex (width : Width) (length index : Int) : Except Halt (Option Int) :=
  if 1 ≤ index ∧ index ≤ length then .ok (some index)
  else if index ≤ -1 then do
    let least ← width.fit (-length)
    if least ≤ index then
      let sum ← width.fit (length + index)
      let place ← width.fit (sum + 1)
      return some place
    else
      return none
  else
    .ok none

/-- The day of the month that a possibly negative index names. -/
def resolveMonthDay (year month index : Int) : Except Halt (Option Int) := do
  let length ← ask (Calendar.daysInMonth year month)
  resolveIndex .int8 length index

/-- The date that a possibly negative index names among the days of a year. -/
def resolveYearDay (year index : Int) : Except Halt (Option Date) := do
  let length ← ask (Calendar.daysInYear year)
  match ← resolveIndex .int16 length index with
  | none => return none
  | some ordinal => do
      let first ← ask (Calendar.firstOfMonth year 1)
      return first.addDays? (ordinal - 1)

/-- Days to a weekday that lies `apart` weekdays on, and so many whole weeks more. -/
def daysAhead (apart weeks : Int) : Except Halt Int := do
  let apart ← Width.int8.fit apart
  let days ← Width.int64.fit (7 * weeks)
  Width.int64.fit (apart % 7 + days)

/-- The `ordinal`-th `weekday` of the dates from `start` to `finish`. -/
def nthWeekday (start finish : Date) (weekday : Weekday) (ordinal : Int) :
    Except Halt (Option Date) :=
  if ordinal = 0 then
    .error (.fault .zeroOrdinal)
  else if finish < start then
    .error (.fault .invertedPeriod)
  else do
    let weeks ← Width.int64.fit (ordinal.natAbs - 1)
    let found ←
      if 0 < ordinal then do
        let days ← daysAhead (weekday.offset - start.weekday.offset) weeks
        pure (start.addDays? days)
      else do
        let days ← daysAhead (finish.weekday.offset - weekday.offset) weeks
        pure (finish.addDays? (-days))
    return found.filter fun date => start ≤ date && date ≤ finish

/-! ## Periods -/

/-- A time of day on a date, which is bound to exist. -/
def timeOn (date : Date) (hour minute second : Int) : Except Halt DateTime :=
  match DateTime.ofClock? date hour minute second 0 with
  | some t => .ok t
  | none => .error .noSuchTime

/-- The period of a frequency that contains a date-time. -/
def containing (frequency : Frequency) (t : DateTime) (weekStart : Weekday) :
    Except Halt Period :=
  match frequency with
  | .yearly => .ok (.year t.date.year)
  | .monthly => .ok (.month t.date.year t.date.month)
  | .weekly => do
      let apart ← Width.int8.fit (t.date.weekday.offset - weekStart.offset)
      return .week ((t.date.addDays? (-(apart % 7))).getD Date.min)
  | .daily => .ok (.day t.date)
  | .hourly => do
      let start ← timeOn t.date t.hour 0 0
      return .hour start
  | .minutely => do
      let start ← timeOn t.date t.hour t.minute 0
      return .minute start
  | .secondly => do
      let start ← timeOn t.date t.hour t.minute t.secondOfMinute
      return .second start

/-- The period a number of units later, if the calendar has it. -/
def advance (period : Period) (steps : Nat) : Except Halt (Option Period) :=
  match period with
  | .year y => do
      let later ← Width.int64.fit (y + steps)
      return if Date.supportsYear later then some (.year later) else none
  | .month y m => do
      let months ← Width.int64.fit (y * 12)
      let months ← Width.int64.fit (months + m)
      let months ← Width.int64.fit (months - 1)
      let index ← Width.int64.fit (months + steps)
      let month ← Width.int64.fit (index % 12 + 1)
      return if Date.supportsYear (index / 12) then some (.month (index / 12) month) else none
  | .week first => do
      let days ← Width.int64.fit (7 * steps)
      return (first.addDays? days).map .week
  | .day date => .ok ((date.addDays? steps).map .day)
  | .hour start => .ok ((start.addSeconds? (3600 * steps)).map .hour)
  | .minute start => .ok ((start.addSeconds? (60 * steps)).map .minute)
  | .second start => .ok ((start.addSeconds? steps).map .second)

end Recurrence.FixedWidth
