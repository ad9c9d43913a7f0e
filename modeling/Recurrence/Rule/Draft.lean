import Recurrence.Calendar.DateTime
import Recurrence.Rule.Frequency
import Recurrence.Rule.WeekdayEntry

/-!
# Drafts

A draft is a recurrence rule as a document states it: nothing about it has been
checked beyond the width of its numbers. Lists may be empty, unsorted or repetitive,
and a list that a document leaves out is empty.
-/

namespace Recurrence

/-- A recurrence rule before validation. -/
structure Draft where
  /-- The base unit. -/
  frequency : Frequency
  /-- The start, from which missing parts of the rule are taken. -/
  anchor : DateTime
  /-- Number of units from one period to the next, one if missing. -/
  interval : Option UInt32
  /-- Stop after this many occurrences. -/
  count : Option UInt32
  /-- Stop after this date-time, which may still be an occurrence. -/
  bound : Option DateTime
  /-- Months, 1 to 12. -/
  months : List Int8
  /-- Days of the month, from either end. -/
  monthDays : List Int8
  /-- Days of the year, from either end. -/
  yearDays : List Int16
  /-- Weeks of the year, from either end. -/
  weekNumbers : List Int8
  /-- Weekdays, perhaps with ordinals. -/
  weekdays : List WeekdayEntry
  /-- Hours of the day. -/
  hours : List Int8
  /-- Minutes of the hour. -/
  minutes : List Int8
  /-- Seconds of the minute. -/
  seconds : List Int8
  /-- Positions among the candidates of a period, from either end. -/
  positions : List Int16
  /-- The first day of the week, Monday if missing. -/
  weekStart : Option Weekday
deriving DecidableEq

end Recurrence
