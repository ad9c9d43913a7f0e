import Recurrence.Period.Basic
import Recurrence.Rule.Basic

/-!
# Walks

A walk visits the periods of a rule: first the one that contains the anchor, then one
every `interval` units, until the calendar ends. `Walk.remaining` bounds the number of
periods still to come, and `Walk.remaining_lt_of_next` says that each one visited
lowers it.
-/

namespace Recurrence

/-- A place on the way through the periods of a rule. -/
structure Walk where
  /-- The period visited next; none when the calendar has ended. -/
  upcoming : Option Period
  /-- Units from one period to the next. -/
  interval : Nat
  /-- The walk moves on. -/
  interval_pos : 0 < interval
  /-- Number of periods visited so far. -/
  steps : Nat
deriving DecidableEq

namespace Walk

/-- The walk of a rule, at its beginning. -/
def ofRule (rule : Rule) : Walk where
  upcoming := some (Period.containing rule.frequency rule.anchor rule.weekStart)
  interval := rule.interval.toNat
  interval_pos := rule.interval_pos
  steps := 0

/-- Visits the next period. -/
def next? (walk : Walk) : Option (Period × Walk) :=
  match walk.upcoming with
  | none => none
  | some period =>
      some (period,
        { walk with upcoming := period.advance walk.interval, steps := walk.steps + 1 })

/-- A bound for the number of periods still to be visited. -/
def remaining (walk : Walk) : Nat :=
  match walk.upcoming with
  | none => 0
  | some period => period.remaining + 1

theorem remaining_lt_of_next {walk later : Walk} {period : Period}
    (h : walk.next? = some (period, later)) : later.remaining < walk.remaining := by
  unfold next? at h
  split at h
  case h_1 => cases h
  case h_2 hc =>
    cases h
    simp only [remaining, hc]
    cases hn : period.advance walk.interval with
    | none => simp
    | some following =>
        have := Period.remaining_lt_of_advance walk.interval_pos hn
        simp only
        omega

end Walk

end Recurrence
