/-!
# The proleptic Gregorian calendar, as arithmetic

Days are numbered by integers: day 0 is January 1 of year 0, and the numbering
runs in both directions without end. Everything here is a closed formula on
those numbers, so that a fact about the calendar is a fact about division with
remainder and `omega` can be asked for it.

The two functions that matter are `daysBeforeYear`, which numbers the years,
and `yearOf`, which finds the year of a day. `daysBeforeYear_le_yearOf` and
`lt_daysBeforeYear_yearOf` say that the second inverts the first: the day lies
between the first day of its year and the first day of the next one.
`yearOf_eq_iff` is the form in which other modules use them.
-/

namespace Recurrence.Gregorian

/-- Every fourth year is a leap year, of the centuries only every fourth. -/
def isLeap (year : Int) : Bool :=
  year % 4 == 0 && (year % 100 != 0 || year % 400 == 0)

/-- Number of days in a year. -/
def yearLength (year : Int) : Int :=
  if isLeap year then 366 else 365

/-- Number of days in a month; `month` counts from 1 to 12. -/
def monthLength (year month : Int) : Int :=
  if month = 2 then (if isLeap year then 29 else 28)
  else if month = 4 ∨ month = 6 ∨ month = 9 ∨ month = 11 then 30
  else 31

/-- The number of the first day of a year. -/
def daysBeforeYear (year : Int) : Int :=
  365 * year + (year + 3) / 4 - (year + 99) / 100 + (year + 399) / 400

/--
The days of a year that come before one of its months.

Were February to have thirty days, the months would begin at the floor of
`(367 * month - 362) / 12`; the months behind it are moved back by what it lacks.
-/
def daysBeforeMonth (year month : Int) : Int :=
  (367 * month - 362) / 12 -
    (if month ≤ 2 then 0 else if isLeap year then 1 else 2)

/-- The number of a day given by year, month and day of the month. -/
def dayNumber (year month day : Int) : Int :=
  daysBeforeYear year + daysBeforeMonth year month + (day - 1)

/-- The year of a day: an estimate by the mean length of a year, off by at most one. -/
def yearOf (number : Int) : Int :=
  let year := number * 400 / 146097
  if number < daysBeforeYear year then year - 1
  else if daysBeforeYear (year + 1) ≤ number then year + 1
  else year

/-- The month that holds the day with `index` days of its year before it. -/
def monthOfIndex (year index : Int) : Int :=
  let lack := if index < daysBeforeMonth year 3 then 0 else if isLeap year then 1 else 2
  (12 * (index + lack) + 373) / 367

/-! ## Years -/

theorem daysBeforeYear_succ (year : Int) :
    daysBeforeYear (year + 1) = daysBeforeYear year + yearLength year := by
  unfold daysBeforeYear yearLength isLeap
  by_cases h4 : year % 4 = 0 <;> by_cases h100 : year % 100 = 0 <;>
    by_cases h400 : year % 400 = 0 <;> simp [h4, h100, h400] <;> omega

theorem daysBeforeYear_lt {a b : Int} (h : a < b) : daysBeforeYear a < daysBeforeYear b := by
  unfold daysBeforeYear
  omega

theorem daysBeforeYear_le {a b : Int} (h : a ≤ b) : daysBeforeYear a ≤ daysBeforeYear b := by
  unfold daysBeforeYear
  omega

theorem daysBeforeYear_le_yearOf (number : Int) : daysBeforeYear (yearOf number) ≤ number := by
  unfold yearOf daysBeforeYear
  simp only []
  split
  · omega
  · split <;> omega

theorem lt_daysBeforeYear_yearOf (number : Int) :
    number < daysBeforeYear (yearOf number + 1) := by
  unfold yearOf daysBeforeYear
  simp only []
  split
  · simp only [Int.sub_add_cancel]
    omega
  · split <;> omega

/-- A day belongs to the year whose first day it does not precede, and no later one. -/
theorem yearOf_eq_iff {number year : Int} :
    yearOf number = year ↔
      daysBeforeYear year ≤ number ∧ number < daysBeforeYear (year + 1) := by
  constructor
  · rintro rfl
    exact ⟨daysBeforeYear_le_yearOf number, lt_daysBeforeYear_yearOf number⟩
  · intro ⟨hle, hlt⟩
    have hle' := daysBeforeYear_le_yearOf number
    have hlt' := lt_daysBeforeYear_yearOf number
    by_cases h : yearOf number < year
    · have := daysBeforeYear_le (show yearOf number + 1 ≤ year by omega)
      omega
    · by_cases h' : year < yearOf number
      · have := daysBeforeYear_le (show year + 1 ≤ yearOf number by omega)
        omega
      · omega

/-! ## Months -/

theorem daysBeforeMonth_succ {year month : Int} (h : 1 ≤ month) (h' : month ≤ 11) :
    daysBeforeMonth year (month + 1) = daysBeforeMonth year month + monthLength year month := by
  have hm : month = 1 ∨ month = 2 ∨ month = 3 ∨ month = 4 ∨ month = 5 ∨ month = 6 ∨
      month = 7 ∨ month = 8 ∨ month = 9 ∨ month = 10 ∨ month = 11 := by omega
  cases hl : isLeap year <;>
    rcases hm with rfl | rfl | rfl | rfl | rfl | rfl | rfl | rfl | rfl | rfl | rfl <;>
    simp [daysBeforeMonth, monthLength, hl]

/-- A day of the year lies in the month found for it. -/
theorem daysBeforeMonth_monthOfIndex {year index : Int} (h : 0 ≤ index)
    (h' : index < yearLength year) :
    1 ≤ monthOfIndex year index ∧ monthOfIndex year index ≤ 12 ∧
      daysBeforeMonth year (monthOfIndex year index) ≤ index ∧
      index < daysBeforeMonth year (monthOfIndex year index) +
        monthLength year (monthOfIndex year index) := by
  unfold monthOfIndex daysBeforeMonth monthLength yearLength at *
  cases hl : isLeap year <;> simp only [hl] at * <;> simp at * <;> split <;> omega

/-- A day that is given by its month lies within the year. -/
theorem daysBeforeMonth_bounds {year month day : Int} (hm : 1 ≤ month) (hm' : month ≤ 12)
    (hd : 1 ≤ day) (hd' : day ≤ monthLength year month) :
    0 ≤ daysBeforeMonth year month + (day - 1) ∧
      daysBeforeMonth year month + (day - 1) < yearLength year := by
  have hcases : month = 1 ∨ month = 2 ∨ month = 3 ∨ month = 4 ∨ month = 5 ∨ month = 6 ∨
      month = 7 ∨ month = 8 ∨ month = 9 ∨ month = 10 ∨ month = 11 ∨ month = 12 := by omega
  cases hl : isLeap year <;>
    rcases hcases with rfl | rfl | rfl | rfl | rfl | rfl | rfl | rfl | rfl | rfl | rfl | rfl <;>
    simp [yearLength, daysBeforeMonth, monthLength, hl] at * <;> omega

/-- The month found for a day that is given by its month is that month. -/
theorem monthOfIndex_eq {year month day : Int} (hm : 1 ≤ month) (hm' : month ≤ 12)
    (hd : 1 ≤ day) (hd' : day ≤ monthLength year month) :
    monthOfIndex year (daysBeforeMonth year month + (day - 1)) = month := by
  have hcases : month = 1 ∨ month = 2 ∨ month = 3 ∨ month = 4 ∨ month = 5 ∨ month = 6 ∨
      month = 7 ∨ month = 8 ∨ month = 9 ∨ month = 10 ∨ month = 11 ∨ month = 12 := by omega
  cases hl : isLeap year <;>
    rcases hcases with rfl | rfl | rfl | rfl | rfl | rfl | rfl | rfl | rfl | rfl | rfl | rfl <;>
    simp [monthOfIndex, daysBeforeMonth, monthLength, hl] at * <;> omega

end Recurrence.Gregorian
