import Recurrence.Rule.Field

/-!
# What can be wrong with a rule

The reasons for which a draft is refused, and their wording.
-/

namespace Recurrence

/-- Why a draft is no rule, or a text no weekday entry. -/
inductive RuleError where
  /-- The interval is zero. -/
  | invalidInterval (interval : Nat)
  /-- Both a count and a bound are given. -/
  | countWithUntil
  /-- A value lies outside of the range of its field. -/
  | outOfRange (field : Field) (value : Int)
  /-- A text is not a weekday entry. -/
  | invalidWeekday (text : String)
deriving DecidableEq, Repr

namespace RuleError

/-- The wording of an error. -/
def message : RuleError → String
  | invalidInterval interval => s!"interval must be at least 1, got {interval}"
  | countWithUntil => "count and until must not both be set"
  | outOfRange field value =>
      s!"invalid {field.name} value {value}, expected {field.expected}"
  | invalidWeekday text => s!"invalid weekday: {text}"

end RuleError

end Recurrence
