import Recurrence.Calendar.Date

/-!
# Date-times

A date-time is a wall-clock reading without a zone. It is held as the number of
whole seconds since the midnight that begins day 0, together with the nanoseconds
past that second. Adding hours, minutes or seconds is then addition, and the order
is that of the seconds, ties being broken by the nanoseconds.

Every occurrence of a rule has zero nanoseconds; only bounds and query arguments
may have others.
-/

namespace Recurrence

/-- A date and a time of day of the supported calendar. -/
structure DateTime where
  /-- Whole seconds since the midnight that begins day 0. -/
  second : Int
  /-- Nanoseconds past the whole second. -/
  nano : Nat
  /-- The calendar begins with the midnight of its first day. -/
  first_le : -3652059 * 86400 ≤ second
  /-- The calendar ends with the midnight after its last day. -/
  lt_end : second < (3652424 + 1) * 86400
  /-- Nanoseconds stay below a second. -/
  nano_lt : nano < 1000000000
deriving DecidableEq

namespace DateTime

/-- Whether one date-time is earlier than another. -/
def Earlier (a b : DateTime) : Prop :=
  a.second < b.second ∨ a.second = b.second ∧ a.nano < b.nano

instance : LT DateTime := ⟨Earlier⟩

instance : LE DateTime := ⟨fun a b => ¬ Earlier b a⟩

instance (a b : DateTime) : Decidable (a < b) :=
  inferInstanceAs (Decidable (a.second < b.second ∨ a.second = b.second ∧ a.nano < b.nano))

instance (a b : DateTime) : Decidable (a ≤ b) :=
  inferInstanceAs (Decidable (¬ b < a))

/-- The date of a date-time. -/
def date (t : DateTime) : Date :=
  ⟨t.second / 86400, by have := t.first_le; omega, by have := t.lt_end; omega⟩

/-- The hour, 0 to 23. -/
def hour (t : DateTime) : Int :=
  t.second % 86400 / 3600

/-- The minute, 0 to 59. -/
def minute (t : DateTime) : Int :=
  t.second % 3600 / 60

/-- The second of the minute, 0 to 59. -/
def secondOfMinute (t : DateTime) : Int :=
  t.second % 60

/-- The midnight that begins a date. -/
def ofDate (date : Date) : DateTime :=
  ⟨date.number * 86400, 0, by have := date.first_le; omega, by have := date.le_last; omega,
    by decide⟩

/-- A clock reading on a date, if there is such a reading. -/
def ofClock? (date : Date) (hour minute second : Int) (nano : Nat) : Option DateTime :=
  if h : (0 ≤ hour ∧ hour ≤ 23) ∧ (0 ≤ minute ∧ minute ≤ 59) ∧ (0 ≤ second ∧ second ≤ 59) ∧
      nano < 1000000000 then
    some
      ⟨date.number * 86400 + hour * 3600 + minute * 60 + second, nano,
        by have := date.first_le; omega, by have := date.le_last; omega, h.2.2.2⟩
  else
    none

/-- The date-time a number of seconds later, if the calendar reaches that far. -/
def addSeconds? (t : DateTime) (seconds : Int) : Option DateTime :=
  if h : -3652059 * 86400 ≤ t.second + seconds ∧ t.second + seconds < (3652424 + 1) * 86400 then
    some ⟨t.second + seconds, t.nano, h.1, h.2, t.nano_lt⟩
  else
    none

/-- The beginning of the hour of a date-time. -/
def startOfHour (t : DateTime) : DateTime :=
  ⟨t.second / 3600 * 3600, 0, by have := t.first_le; omega, by have := t.lt_end; omega,
    by decide⟩

/-- The beginning of the minute of a date-time. -/
def startOfMinute (t : DateTime) : DateTime :=
  ⟨t.second / 60 * 60, 0, by have := t.first_le; omega, by have := t.lt_end; omega,
    by decide⟩

/-- A date-time without the part below the second. -/
def wholeSecond (t : DateTime) : DateTime :=
  ⟨t.second, 0, t.first_le, t.lt_end, by decide⟩

theorem ext_fields {a b : DateTime} (hs : a.second = b.second) (hn : a.nano = b.nano) : a = b := by
  cases a; cases b; cases hs; cases hn; rfl

theorem lt_iff {a b : DateTime} :
    a < b ↔ a.second < b.second ∨ a.second = b.second ∧ a.nano < b.nano :=
  Iff.rfl

theorem le_iff {a b : DateTime} :
    a ≤ b ↔ a.second < b.second ∨ a.second = b.second ∧ a.nano ≤ b.nano := by
  show ¬ (b.second < a.second ∨ b.second = a.second ∧ b.nano < a.nano) ↔ _
  omega

/-- A date-time is given back by its date and its clock reading. -/
theorem ofClock?_fields (t : DateTime) :
    ofClock? t.date t.hour t.minute t.secondOfMinute t.nano = some t := by
  unfold ofClock?
  rw [dif_pos]
  · congr 1
    refine ext_fields ?_ rfl
    simp only [date, hour, minute, secondOfMinute]
    omega
  · have := t.nano_lt
    simp only [hour, minute, secondOfMinute]
    omega

end DateTime

end Recurrence
