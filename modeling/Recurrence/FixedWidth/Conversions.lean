import Recurrence.FixedWidth.Calendar
import Recurrence.Rule.Narrow

/-!
# Where the numbers of a step have to fit

The numbers of a step are not only computed, they are also put somewhere: a year into
sixteen bits, a month into eight, and every other distance into a length of time, which
holds so many days, hours, minutes or seconds and no more. A number that does not fit
stops nothing. The step then leads nowhere, as if it had left the calendar, so a place
that is too small would end a walk early and without a trace.
-/

namespace Recurrence.FixedWidth

/-- The units in which a length of time is counted. -/
inductive SpanUnit where
  | day
  | hour
  | minute
  | second
deriving DecidableEq, Repr

namespace SpanUnit

/-- The most of a unit that a length of time holds, in either direction. -/
def greatest : SpanUnit → Int
  | day => 7304484
  | hour => 175307616
  | minute => 10518456960
  | second => 631107417600

/-- Whether a length of time holds so many of a unit. -/
def holds (unit : SpanUnit) (count : Int) : Bool :=
  -unit.greatest ≤ count && count ≤ unit.greatest

theorem holds_iff {unit : SpanUnit} {count : Int} :
    unit.holds count = true ↔ -unit.greatest ≤ count ∧ count ≤ unit.greatest := by
  simp [holds]

end SpanUnit

/-- Whether the numbers of a step fit where they are put. -/
def fitsStep (period : Period) (steps : Nat) : Bool :=
  match period with
  | .year y => (toInt16? (y + steps)).isSome
  | .month y m =>
      let index := Period.monthIndex y m + steps
      (toInt16? (index / 12)).isSome && (toInt8? (index % 12 + 1)).isSome
  | .week _ => SpanUnit.day.holds (7 * steps)
  | .day _ => SpanUnit.day.holds steps
  | .hour _ => SpanUnit.hour.holds steps
  | .minute _ => SpanUnit.minute.holds steps
  | .second _ => SpanUnit.second.holds steps

/-- The period a number of units later; none if a number of the step has no place, or if the
calendar does not have it. -/
def advanceWithin (period : Period) (steps : Nat) : Except Halt (Option Period) :=
  if fitsStep period steps then advance period steps else .ok none

end Recurrence.FixedWidth
