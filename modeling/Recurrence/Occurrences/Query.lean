import Recurrence.Occurrences.Cursor

/-!
# Queries

Questions to the whole sequence of occurrences of a rule. Each is answered by running
a fresh cursor only as far as the answer needs, which is possible because occurrences
ascend.
-/

namespace Recurrence

/-- Whether a date-time is not before an optional lower end. -/
def isFrom (lower : Option DateTime) (t : DateTime) : Bool :=
  match lower with
  | some lower => lower ≤ t
  | none => true

/-- Whether a date-time is not after an optional upper end. -/
def isUpTo (upper : Option DateTime) (t : DateTime) : Bool :=
  match upper with
  | some upper => t ≤ upper
  | none => true

namespace Rule

/-- The first `n` occurrences. -/
def first (rule : Rule) (n : Nat) : Except Fault (List DateTime) := do
  let (occurrences, _) ← rule.cursor.take n
  return occurrences

/-- The first `n` occurrences that are neither before `lower` nor after `upper`. -/
def window (rule : Rule) (lower upper : Option DateTime) : Nat → Except Fault (List DateTime)
  | 0 => .ok []
  | n + 1 => do
      match ← rule.cursor.find (isFrom lower) with
      | (none, _) => return []
      | (some t, cursor) =>
          if isUpTo upper t then
            let rest ← cursor.takeWhile (isUpTo upper) n
            return t :: rest
          else
            return []

/-- The first `n` occurrences from `start` to `finish`, both included. -/
def between (rule : Rule) (start finish : DateTime) (n : Nat) : Except Fault (List DateTime) :=
  if start ≤ finish then rule.window (some start) (some finish) n else .ok []

/-- The first occurrence after a date-time, or at it when `inclusive`. -/
def after (rule : Rule) (t : DateTime) (inclusive : Bool) : Except Fault (Option DateTime) := do
  let (found, _) ← rule.cursor.find fun occurrence =>
    if inclusive then t ≤ occurrence else t < occurrence
  return found

/-- The last occurrence before a date-time, or at it when `inclusive`. -/
def before (rule : Rule) (t : DateTime) (inclusive : Bool) : Except Fault (Option DateTime) := do
  let earlier := fun occurrence => if inclusive then decide (occurrence ≤ t) else occurrence < t
  let (found, _) ← rule.cursor.foldWhile earlier (fun _ occurrence => some occurrence) none
  return found

/-- Whether a date-time is an occurrence. -/
def contains (rule : Rule) (t : DateTime) : Except Fault Bool := do
  let found ← rule.after t true
  return found == some t

end Rule

end Recurrence
