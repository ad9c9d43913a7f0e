import Recurrence.Calendar.Gregorian
import Recurrence.Calendar.Weekday

/-!
# Dates

A date is the number of its day, restricted to the supported years -9999 to 9999.
With the number as the representation, the order of dates is the order of integers
and adding days is addition; year, month and day of the month are read off the
number by the formulas of `Recurrence.Gregorian`.

`ofFields?` is the way in from a year, a month and a day, and it refuses what the
calendar does not have. `ofFields?_fields` says that a date is given back by its
own fields, `fields_of_ofFields?` that the fields of an accepted date are the ones
it was made from.
-/

namespace Recurrence

/-- A day of the supported calendar, held as its number. -/
structure Date where
  /-- Days since January 1 of year 0. -/
  number : Int
  /-- The calendar begins with January 1 of year -9999. -/
  first_le : -3652059 ≤ number
  /-- The calendar ends with December 31 of year 9999. -/
  le_last : number ≤ 3652424
deriving DecidableEq

namespace Date

/-- The first supported year. -/
def minYear : Int := -9999

/-- The last supported year. -/
def maxYear : Int := 9999

/-- Whether the calendar covers a year. -/
def supportsYear (year : Int) : Bool :=
  minYear ≤ year && year ≤ maxYear

/-- The first supported date, January 1 of year -9999. -/
def min : Date := ⟨-3652059, by decide, by decide⟩

/-- The last supported date, December 31 of year 9999. -/
def max : Date := ⟨3652424, by decide, by decide⟩

instance : LE Date := ⟨fun a b => a.number ≤ b.number⟩

instance : LT Date := ⟨fun a b => a.number < b.number⟩

instance (a b : Date) : Decidable (a ≤ b) :=
  inferInstanceAs (Decidable (a.number ≤ b.number))

instance (a b : Date) : Decidable (a < b) :=
  inferInstanceAs (Decidable (a.number < b.number))

/-- The date with a number, if the calendar has it. -/
def ofNumber? (number : Int) : Option Date :=
  if h : -3652059 ≤ number ∧ number ≤ 3652424 then some ⟨number, h.1, h.2⟩ else none

/-- The date with a year, month and day of the month, if the calendar has it. -/
def ofFields? (year month day : Int) : Option Date :=
  if 1 ≤ month ∧ month ≤ 12 ∧ 1 ≤ day ∧ day ≤ Gregorian.monthLength year month then
    ofNumber? (Gregorian.dayNumber year month day)
  else
    none

/-- The year of a date. -/
def year (date : Date) : Int :=
  Gregorian.yearOf date.number

/-- Number of days of its year that come before a date. -/
def yearIndex (date : Date) : Int :=
  date.number - Gregorian.daysBeforeYear date.year

/-- The month of a date, 1 to 12. -/
def month (date : Date) : Int :=
  Gregorian.monthOfIndex date.year date.yearIndex

/-- The day of the month of a date, from 1. -/
def day (date : Date) : Int :=
  date.yearIndex - Gregorian.daysBeforeMonth date.year date.month + 1

/-- The weekday of a date; day 0 is a Saturday. -/
def weekday (date : Date) : Weekday :=
  Weekday.ofOffset (date.number + 5)

/-- The date a number of days later, if the calendar reaches that far. -/
def addDays? (date : Date) (days : Int) : Option Date :=
  ofNumber? (date.number + days)

/-- Number of days in the month of a date. -/
def monthLength (date : Date) : Int :=
  Gregorian.monthLength date.year date.month

/-- The dates from `first` to `last` in order, both included. -/
def upTo (first last : Date) : List Date :=
  (List.range (last.number - first.number + 1).toNat).filterMap fun (days : Nat) =>
    first.addDays? days

theorem ext_number {a b : Date} (h : a.number = b.number) : a = b := by
  cases a; cases b; cases h; rfl

theorem ofNumber?_eq_some_iff {number : Int} {date : Date} :
    ofNumber? number = some date ↔ date.number = number := by
  unfold ofNumber?
  constructor
  · split
    · intro h; cases h; rfl
    · intro h; cases h
  · rintro rfl
    rw [dif_pos ⟨date.first_le, date.le_last⟩]

theorem ofNumber?_number (date : Date) : ofNumber? date.number = some date :=
  ofNumber?_eq_some_iff.2 rfl

theorem mem_upTo {first last date : Date} :
    date ∈ first.upTo last ↔ first ≤ date ∧ date ≤ last := by
  simp only [upTo, addDays?, List.mem_filterMap, List.mem_range, ofNumber?_eq_some_iff]
  show _ ↔ first.number ≤ date.number ∧ date.number ≤ last.number
  constructor
  · rintro ⟨days, hlt, heq⟩
    omega
  · rintro ⟨hle, hle'⟩
    exact ⟨(date.number - first.number).toNat, by omega, by omega⟩

theorem yearIndex_nonneg (date : Date) : 0 ≤ date.yearIndex := by
  have := Gregorian.daysBeforeYear_le_yearOf date.number
  unfold yearIndex year
  omega

theorem yearIndex_lt (date : Date) : date.yearIndex < Gregorian.yearLength date.year := by
  have := Gregorian.lt_daysBeforeYear_yearOf date.number
  rw [Gregorian.daysBeforeYear_succ] at this
  unfold yearIndex year
  omega

/-- The fields of a date name a month of the year and a day of that month. -/
theorem fields_valid (date : Date) :
    1 ≤ date.month ∧ date.month ≤ 12 ∧ 1 ≤ date.day ∧
      date.day ≤ Gregorian.monthLength date.year date.month := by
  have ⟨h1, h12, hle, hlt⟩ :=
    Gregorian.daysBeforeMonth_monthOfIndex date.yearIndex_nonneg date.yearIndex_lt
  refine ⟨h1, h12, ?_, ?_⟩ <;> simp only [day, month] <;> omega

theorem dayNumber_fields (date : Date) :
    Gregorian.dayNumber date.year date.month date.day = date.number := by
  unfold Gregorian.dayNumber day yearIndex
  omega

/-- A date is given back by its own fields. -/
theorem ofFields?_fields (date : Date) :
    ofFields? date.year date.month date.day = some date := by
  rw [ofFields?, if_pos date.fields_valid, dayNumber_fields, ofNumber?_number]

/-- The fields of an accepted date are the ones it was made from. -/
theorem fields_of_ofFields? {year month day : Int} {date : Date}
    (h : ofFields? year month day = some date) :
    date.year = year ∧ date.month = month ∧ date.day = day := by
  unfold ofFields? at h
  split at h
  case isFalse => cases h
  case isTrue hv =>
    obtain ⟨hm, hm', hd, hd'⟩ := hv
    have hn := ofNumber?_eq_some_iff.1 h
    have hb := Gregorian.daysBeforeMonth_bounds hm hm' hd hd'
    have hy : date.year = year := by
      unfold Date.year
      rw [hn, Gregorian.yearOf_eq_iff, Gregorian.daysBeforeYear_succ]
      unfold Gregorian.dayNumber
      omega
    have hi : date.yearIndex = Gregorian.daysBeforeMonth year month + (day - 1) := by
      unfold yearIndex
      rw [hy, hn]
      unfold Gregorian.dayNumber
      omega
    have hmonth : date.month = month := by
      unfold Date.month
      rw [hy, hi]
      exact Gregorian.monthOfIndex_eq hm hm' hd hd'
    refine ⟨hy, hmonth, ?_⟩
    unfold Date.day
    rw [hi, hy, hmonth]
    omega

end Date

end Recurrence
