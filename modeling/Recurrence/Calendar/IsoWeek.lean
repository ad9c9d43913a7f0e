import Recurrence.Calendar.Date

/-!
# Weeks of the year

Weeks are numbered after ISO 8601: they begin on Monday, and a week belongs to the
year that holds its Thursday. So the days around New Year may lie in a week of the
neighbouring year, and a year has 53 weeks if it has 53 Thursdays and 52 otherwise.

Everything is computed from the Thursday of the week. It may lie outside of the
supported dates by itself, so it is handled as a day number and not as a date.
-/

namespace Recurrence

/-- A week together with the year that counts it. -/
structure IsoWeek where
  /-- The number of the week, from 1. -/
  week : Int
  /-- The year whose weeks are counted. -/
  year : Int
deriving DecidableEq

namespace IsoWeek

/-- The day number of the Thursday in the Monday-based week of a date. -/
def thursdayNumber (date : Date) : Int :=
  date.number - date.weekday.offset + 3

/-- The week that holds a date. -/
def ofDate (date : Date) : IsoWeek :=
  let thursday := thursdayNumber date
  let year := Gregorian.yearOf thursday
  ⟨(thursday - Gregorian.daysBeforeYear year) / 7 + 1, year⟩

/-- Number of weeks that a year counts, which is the number of its Thursdays. -/
def weeksInYear (year : Int) : Int :=
  let first := Gregorian.daysBeforeYear year
  let toThursday := (3 - (first + 5)) % 7
  (Gregorian.yearLength year - 1 - toThursday) / 7 + 1

end IsoWeek

end Recurrence
