/-!
# Weekdays

The seven days of the week in their order from Monday, with the two-letter codes
by which rules name them. `offset` is the view used by all arithmetic: the number
of days since Monday. `ofOffset` takes any integer, so that a weekday can be found
for a day that lies any number of days before or after a Monday.
-/

namespace Recurrence

/-- A day of the week. -/
inductive Weekday where
  | monday
  | tuesday
  | wednesday
  | thursday
  | friday
  | saturday
  | sunday
deriving DecidableEq, Repr

namespace Weekday

/-- The weekdays in order, Monday first. -/
def all : List Weekday :=
  [monday, tuesday, wednesday, thursday, friday, saturday, sunday]

/-- Number of days since Monday, 0 to 6. -/
def offset : Weekday → Int
  | monday => 0
  | tuesday => 1
  | wednesday => 2
  | thursday => 3
  | friday => 4
  | saturday => 5
  | sunday => 6

/-- The weekday that follows a Monday by `days` days, or precedes it if negative. -/
def ofOffset (days : Int) : Weekday :=
  match days % 7 with
  | 0 => monday
  | 1 => tuesday
  | 2 => wednesday
  | 3 => thursday
  | 4 => friday
  | 5 => saturday
  | _ => sunday

/-- Days from one weekday to the next day that is another, 0 to 6. -/
def daysAfter (later earlier : Weekday) : Int :=
  (later.offset - earlier.offset) % 7

/-- The two-letter code, in upper case. -/
def code : Weekday → String
  | monday => "MO"
  | tuesday => "TU"
  | wednesday => "WE"
  | thursday => "TH"
  | friday => "FR"
  | saturday => "SA"
  | sunday => "SU"

/-- Reads a two-letter code; case matters. -/
def ofCode? (text : String) : Option Weekday :=
  all.find? fun weekday => weekday.code = text

/-- The three-letter English abbreviation used in tables. -/
def abbreviation : Weekday → String
  | monday => "Mon"
  | tuesday => "Tue"
  | wednesday => "Wed"
  | thursday => "Thu"
  | friday => "Fri"
  | saturday => "Sat"
  | sunday => "Sun"

/-- Saturdays and Sundays. -/
def isWeekend : Weekday → Bool
  | saturday | sunday => true
  | _ => false

theorem offset_nonneg (weekday : Weekday) : 0 ≤ weekday.offset := by
  cases weekday <;> decide

theorem offset_lt (weekday : Weekday) : weekday.offset < 7 := by
  cases weekday <;> decide

theorem ofOffset_offset (weekday : Weekday) : ofOffset weekday.offset = weekday := by
  cases weekday <;> rfl

theorem offset_ofOffset (days : Int) : (ofOffset days).offset = days % 7 := by
  have h : days % 7 = 0 ∨ days % 7 = 1 ∨ days % 7 = 2 ∨ days % 7 = 3 ∨ days % 7 = 4 ∨
      days % 7 = 5 ∨ days % 7 = 6 := by omega
  unfold ofOffset
  rcases h with h | h | h | h | h | h | h <;> rw [h] <;> rfl

theorem ofCode?_code (weekday : Weekday) : ofCode? weekday.code = some weekday := by
  cases weekday <;> decide

end Weekday

end Recurrence
