/-!
# Faults

The questions that `Recurrence.Calendar` answers make sense only for arguments
inside of the calendar: there is no month 13, and no weekday has an ordinal of
zero. A question without an answer ends in a fault. A validated rule never meets
one; a period or a year that was made up by hand may.
-/

namespace Recurrence

/-- Why a question about the calendar has no answer. -/
inductive Fault where
  /-- A month is not one of 1 to 12. -/
  | monthOutOfRange
  /-- A year is not one of the supported ones. -/
  | yearOutOfRange
  /-- A year that counts weeks is not one of the supported ones. -/
  | isoYearOutOfRange
  /-- A weekday was asked for by the ordinal zero. -/
  | zeroOrdinal
  /-- A range of dates ends before it starts. -/
  | invertedPeriod
  /-- A period has no first or last day. -/
  | noSuchDate
deriving DecidableEq, Repr

namespace Fault

/-- The wording of a fault; a period without days has none. -/
def message? : Fault → Option String
  | monthOutOfRange => some "month out of range"
  | yearOutOfRange => some "year out of range"
  | isoYearOutOfRange => some "ISO year out of range"
  | zeroOrdinal => some "ordinal must not be zero"
  | invertedPeriod => some "period must not be inverted"
  | noSuchDate => none

end Fault

/-- A computation that ends without a fault has met none on its way. -/
theorem exists_of_bind_eq_ok {value : Except Fault α} {next : α → Except Fault β} {result : β}
    (h : value >>= next = .ok result) : ∃ a, value = .ok a ∧ next a = .ok result := by
  cases value with
  | error fault => cases h
  | ok a => exact ⟨a, rfl, h⟩

end Recurrence
