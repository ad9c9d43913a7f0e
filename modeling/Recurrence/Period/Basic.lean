import Recurrence.Calendar.DateTime
import Recurrence.Calendar.Fault
import Recurrence.Rule.Frequency

/-!
# Periods

A period is one unit of a frequency: a year, a month, seven days that begin on the
rule's first day of the week, a day, an hour, a minute or a second. It is the scope
in which a rule picks its date-times.

A period may be written down for a year or month that the calendar does not have.
Such a period has no days, which its questions report as a fault, but one may still
step from it to a period that has. `remaining` measures how far a period is from the
end of the calendar; every step of positive length makes it smaller, and that is why
a walk through the periods ends.
-/

namespace Recurrence

/-- One unit of a frequency. -/
inductive Period where
  /-- A calendar year. -/
  | year (year : Int)
  /-- A calendar month, counted from 1. -/
  | month (year month : Int)
  /-- The seven days from a date on. -/
  | week (first : Date)
  /-- A single day. -/
  | day (date : Date)
  /-- An hour, given by its beginning. -/
  | hour (start : DateTime)
  /-- A minute, given by its beginning. -/
  | minute (start : DateTime)
  /-- A second, given by its beginning. -/
  | second (start : DateTime)
deriving DecidableEq

namespace Period

/--
The period of a frequency that contains a date-time. A week that would begin before the
calendar does begins with its first day.
-/
def containing (frequency : Frequency) (t : DateTime) (weekStart : Weekday) : Period :=
  match frequency with
  | .yearly => year t.date.year
  | .monthly => month t.date.year t.date.month
  | .weekly =>
      week ((t.date.addDays? (-t.date.weekday.daysAfter weekStart)).getD Date.min)
  | .daily => day t.date
  | .hourly => hour t.startOfHour
  | .minutely => minute t.startOfMinute
  | .secondly => second t.wholeSecond

/-- Months from the beginning of year 0 to a month. -/
def monthIndex (year month : Int) : Int :=
  year * 12 + month - 1

/-- The period a number of units later, if the calendar has it. -/
def advance (period : Period) (steps : Nat) : Option Period :=
  match period with
  | year y =>
      if Date.supportsYear (y + steps) then some (year (y + steps)) else none
  | month y m =>
      let index := monthIndex y m + steps
      if Date.supportsYear (index / 12) then some (month (index / 12) (index % 12 + 1)) else none
  | week first => (first.addDays? (7 * steps)).map week
  | day date => (date.addDays? steps).map day
  | hour start => (start.addSeconds? (3600 * steps)).map hour
  | minute start => (start.addSeconds? (60 * steps)).map minute
  | second start => (start.addSeconds? steps).map second

/-- A date that a period is bound to have. -/
def dateOf (year month day : Int) : Except Fault Date :=
  match Date.ofFields? year month day with
  | some date => .ok date
  | none => .error .noSuchDate

/-- The first day of a period. -/
def firstDay : Period → Except Fault Date
  | year y => dateOf y 1 1
  | month y m => dateOf y m 1
  | week first => .ok first
  | day date => .ok date
  | hour start | minute start | second start => .ok start.date

/-- The last day of a period; the last week of the calendar ends with it. -/
def lastDay : Period → Except Fault Date
  | year y => dateOf y 12 31
  | month y m => dateOf y m (Gregorian.monthLength y m)
  | week first => .ok ((first.addDays? 6).getD Date.max)
  | day date => .ok date
  | hour start | minute start | second start => .ok start.date

/-- The days of a period in order. -/
def days (period : Period) : Except Fault (List Date) := do
  let first ← period.firstDay
  let last ← period.lastDay
  return first.upTo last

/-- The earliest date-time of a period. -/
def start (period : Period) : Except Fault DateTime :=
  match period with
  | hour start | minute start | second start => .ok start
  | _ => do
      let first ← period.firstDay
      return DateTime.ofDate first

/-- The hour that a period fixes, if it is no longer than one. -/
def pinnedHour? : Period → Option Int
  | hour start | minute start | second start => some start.hour
  | _ => none

/-- The minute that a period fixes, if it is no longer than one. -/
def pinnedMinute? : Period → Option Int
  | minute start | second start => some start.minute
  | _ => none

/-- The second that a period fixes, if it is one. -/
def pinnedSecond? : Period → Option Int
  | second start => some start.secondOfMinute
  | _ => none

/-- Units of its own kind from a period to the end of the calendar. -/
def remaining : Period → Nat
  | year y => (Date.maxYear - y).toNat
  | month y m => (monthIndex Date.maxYear 12 - monthIndex y m).toNat
  | week first => (Date.max.number - first.number).toNat
  | day date => (Date.max.number - date.number).toNat
  | hour start | minute start | second start =>
      ((Date.max.number + 1) * 86400 - start.second).toNat

theorem number_of_addDays? {date later : Date} {days : Int}
    (h : date.addDays? days = some later) : later.number = date.number + days :=
  Date.ofNumber?_eq_some_iff.1 h

theorem second_of_addSeconds? {t later : DateTime} {seconds : Int}
    (h : t.addSeconds? seconds = some later) : later.second = t.second + seconds := by
  unfold DateTime.addSeconds? at h
  split at h
  · cases h; rfl
  · cases h

/-- Every step of positive length comes closer to the end of the calendar. -/
theorem remaining_lt_of_advance {period later : Period} {steps : Nat} (hpos : 0 < steps)
    (h : period.advance steps = some later) : later.remaining < period.remaining := by
  cases period with
  | year y =>
      simp only [advance] at h
      split at h
      next hs =>
        cases h
        simp only [Date.supportsYear, Bool.and_eq_true, decide_eq_true_eq] at hs
        simp only [remaining]
        omega
      next => cases h
  | month y m =>
      simp only [advance] at h
      split at h
      next hs =>
        cases h
        simp only [Date.supportsYear, Bool.and_eq_true, decide_eq_true_eq] at hs
        simp only [remaining, monthIndex, Date.maxYear] at hs ⊢
        omega
      next => cases h
  | week first | day first =>
      obtain ⟨date, hd, rfl⟩ := Option.map_eq_some_iff.1 h
      have := number_of_addDays? hd
      have := date.le_last
      simp only [remaining, Date.max]
      omega
  | hour start | minute start | second start =>
      obtain ⟨t, ht, rfl⟩ := Option.map_eq_some_iff.1 h
      have := second_of_addSeconds? ht
      have := t.lt_end
      simp only [remaining, Date.max]
      omega

end Period

end Recurrence
