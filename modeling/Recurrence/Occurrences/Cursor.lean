import Recurrence.Expansion
import Recurrence.Period.Walk

/-!
# Cursors

A cursor hands out the occurrences of a rule one by one and in order. It expands one
period at a time and holds at most the candidates of that period. `step` does one
thing: it drops a candidate before the anchor, hands one out, fetches the next period,
or finds that the end is reached. `next` repeats it until there is something to say.

Every step that does not end the run makes `Place.rank` smaller: either a candidate
is consumed, or a period is, and a walk has only finitely many. So `next` terminates
for every rule, also for one that selects nothing, and so does whatever asks for
occurrences until there are no more.
-/

namespace Recurrence

namespace Cursor

/-- Where a cursor stands. -/
inductive Place where
  /-- Between two occurrences: the walk ahead, and candidates of the period behind it. -/
  | positioned (walk : Walk) (pending : List DateTime)
  /-- At the end, for good. -/
  | exhausted

/-- What decreases on the way: the periods ahead, then the candidates at hand. -/
def Place.rank : Place → Nat × Nat
  | .positioned walk pending => (walk.remaining, pending.length)
  | .exhausted => (0, 0)

/-- What a single step finds. -/
inductive Step where
  /-- An occurrence. -/
  | emit (t : DateTime) (place : Place)
  /-- Nothing yet. -/
  | resume (place : Place)
  /-- The end. -/
  | finish

/-- Where a step leads; the end leads nowhere. -/
def Step.place? : Step → Option Place
  | .emit _ place => some place
  | .resume place => some place
  | .finish => none

end Cursor

/-- A position in the sequence of occurrences of a rule. -/
structure Cursor where
  /-- The rule. -/
  rule : Rule
  /-- Where the cursor stands. -/
  place : Cursor.Place
  /-- Number of occurrences handed out so far. -/
  emitted : Nat

namespace Rule

/-- The cursor before the first occurrence. -/
def cursor (rule : Rule) : Cursor where
  rule := rule
  place := .positioned (Walk.ofRule rule) []
  emitted := 0

/-- Whether the rule admits no more than `emitted` occurrences. -/
def isUsedUp (rule : Rule) (emitted : Nat) : Bool :=
  match rule.count with
  | some count => count.toNat ≤ emitted
  | none => false

/-- Whether a date-time is after the bound of the rule. -/
def isPast (rule : Rule) (t : DateTime) : Bool :=
  match rule.bound with
  | some bound => bound < t
  | none => false

end Rule

namespace Cursor

/-- Whether the cursor has found its end. -/
def isExhausted (cursor : Cursor) : Bool :=
  match cursor.place with
  | .exhausted => true
  | .positioned _ _ => false

/-- Does one thing towards the next occurrence. -/
def step (cursor : Cursor) : Except Fault Step :=
  match cursor.place with
  | .exhausted => .ok .finish
  | .positioned walk pending =>
      if cursor.rule.isUsedUp cursor.emitted then .ok .finish
      else
        match pending with
        | t :: pending =>
            if t < cursor.rule.anchor then .ok (.resume (.positioned walk pending))
            else if cursor.rule.isPast t then .ok .finish
            else .ok (.emit t (.positioned walk pending))
        | [] =>
            match walk.next? with
            | none => .ok .finish
            | some (period, walk) => do
                let start ← period.start
                if cursor.rule.isPast start then
                  return .finish
                else
                  let pending ← cursor.rule.expand period
                  return .resume (.positioned walk pending)

/-- What is ahead of a cursor. -/
def rank (cursor : Cursor) : Nat × Nat :=
  cursor.place.rank

/-- The ways in which a step is taken, with what allows them. -/
inductive Takes (cursor : Cursor) : Step → Prop
  /-- A candidate before the anchor is dropped. -/
  | drop {walk : Walk} {t : DateTime} {pending : List DateTime}
      (hplace : cursor.place = .positioned walk (t :: pending))
      (hroom : cursor.rule.isUsedUp cursor.emitted = false) (hearly : t < cursor.rule.anchor) :
      Takes cursor (.resume (.positioned walk pending))
  /-- A candidate is handed out. -/
  | emit {walk : Walk} {t : DateTime} {pending : List DateTime}
      (hplace : cursor.place = .positioned walk (t :: pending))
      (hroom : cursor.rule.isUsedUp cursor.emitted = false) (hlate : ¬ t < cursor.rule.anchor)
      (hwithin : cursor.rule.isPast t = false) :
      Takes cursor (.emit t (.positioned walk pending))
  /-- The next period is visited, and what it expands to is at hand. -/
  | fetch {walk later : Walk} {period : Period} {start : DateTime} {pending : List DateTime}
      (hplace : cursor.place = .positioned walk [])
      (hroom : cursor.rule.isUsedUp cursor.emitted = false)
      (hnext : walk.next? = some (period, later)) (hstart : period.start = .ok start)
      (hwithin : cursor.rule.isPast start = false)
      (hexpand : cursor.rule.expand period = .ok pending) :
      Takes cursor (.resume (.positioned later pending))
  /-- The end is found. -/
  | finish : Takes cursor .finish

theorem takes_of_step {cursor : Cursor} {found : Step} (h : cursor.step = .ok found) :
    cursor.Takes found := by
  unfold step at h
  split at h
  · cases h
    exact .finish
  next walk pending hplace =>
    split at h
    · cases h
      exact .finish
    next hroom =>
      have hroom := Bool.eq_false_iff.2 hroom
      split at h
      · split at h
        next hearly =>
          cases h
          exact .drop hplace hroom hearly
        next hlate =>
          split at h
          · cases h
            exact .finish
          next hwithin =>
            cases h
            exact .emit hplace hroom hlate (Bool.eq_false_iff.2 hwithin)
      · split at h
        · cases h
          exact .finish
        next period later hnext =>
          obtain ⟨start, hstart, h⟩ := exists_of_bind_eq_ok h
          split at h
          · cases h
            exact .finish
          next hwithin =>
            obtain ⟨pending, hexpand, h⟩ := exists_of_bind_eq_ok h
            cases h
            exact .fetch hplace hroom hnext hstart (Bool.eq_false_iff.2 hwithin) hexpand

/-- A step that does not end the run drops something at hand, or goes on to the walk behind the
next period. -/
theorem exists_walk_of_step {cursor : Cursor} {found : Step} {place : Place}
    (h : cursor.step = .ok found) (hplace : found.place? = some place) :
    ∃ walk pending later rest, cursor.place = .positioned walk pending ∧
      place = .positioned later rest ∧
      (later = walk ∧ rest.length < pending.length ∨
        ∃ period, walk.next? = some (period, later)) := by
  cases takes_of_step h with
  | drop hcursor | emit hcursor =>
      cases hplace
      exact ⟨_, _, _, _, hcursor, rfl, Or.inl ⟨rfl, Nat.lt_succ_self _⟩⟩
  | fetch hcursor _ hnext =>
      cases hplace
      exact ⟨_, _, _, _, hcursor, rfl, Or.inr ⟨_, hnext⟩⟩
  | finish => cases hplace

/-- So less is ahead than there was before it. -/
theorem rank_lt_of_step {cursor : Cursor} {found : Step} {place : Place}
    (h : cursor.step = .ok found) (hplace : found.place? = some place) :
    Prod.Lex (· < ·) (· < ·) place.rank cursor.rank := by
  obtain ⟨walk, pending, later, rest, hcursor, rfl, hlater⟩ := exists_walk_of_step h hplace
  rw [rank, hcursor]
  obtain ⟨rfl, hlt⟩ | ⟨period, hnext⟩ := hlater
  · exact Prod.Lex.right _ hlt
  · exact Prod.Lex.left _ _ (Walk.remaining_lt_of_next hnext)

/-- The next occurrence, and the cursor behind it; none when the end is reached. -/
def next (cursor : Cursor) : Except Fault (Option DateTime × Cursor) :=
  match _h : cursor.step with
  | .error fault => .error fault
  | .ok .finish => .ok (none, { cursor with place := .exhausted })
  | .ok (.emit t place) =>
      .ok (some t, { cursor with place := place, emitted := cursor.emitted + 1 })
  | .ok (.resume place) => next { cursor with place := place }
termination_by cursor.rank
decreasing_by exact rank_lt_of_step _h rfl

/-- A cursor that has handed out an occurrence has less ahead of it. -/
theorem rank_lt_of_next {cursor later : Cursor} {t : DateTime}
    (h : cursor.next = .ok (some t, later)) :
    Prod.Lex (· < ·) (· < ·) later.rank cursor.rank := by
  fun_induction next cursor with
  | case1 cursor fault hs => cases h
  | case2 cursor hs => cases h
  | case3 cursor t' place hs =>
      cases h
      exact rank_lt_of_step hs rfl
  | case4 cursor place hs ih =>
      have hlt := rank_lt_of_step hs rfl
      have := ih h
      revert this hlt
      show Prod.Lex _ _ place.rank cursor.rank → Prod.Lex _ _ later.rank place.rank → _
      intro hlt hlt'
      simp only [Prod.lex_def] at hlt hlt' ⊢
      omega

/-- Up to `n` further occurrences, and the cursor behind them. -/
def take : Nat → Cursor → Except Fault (List DateTime × Cursor)
  | 0, cursor => .ok ([], cursor)
  | n + 1, cursor => do
      match ← cursor.next with
      | (none, cursor) => return ([], cursor)
      | (some t, cursor) =>
          let (rest, cursor) ← take n cursor
          return (t :: rest, cursor)

/-- The occurrence that follows `n` others. -/
def nth : Nat → Cursor → Except Fault (Option DateTime × Cursor)
  | 0, cursor => cursor.next
  | n + 1, cursor => do
      match ← cursor.next with
      | (none, cursor) => return (none, cursor)
      | (some _, cursor) => nth n cursor

/-- The next occurrence that passes a test; those before it are dropped. -/
def find (test : DateTime → Bool) (cursor : Cursor) : Except Fault (Option DateTime × Cursor) :=
  match _h : cursor.next with
  | .error fault => .error fault
  | .ok (none, cursor) => .ok (none, cursor)
  | .ok (some t, cursor) => if test t then .ok (some t, cursor) else find test cursor
termination_by cursor.rank
decreasing_by exact rank_lt_of_next _h

/-- Combines all further occurrences as long as they pass a test. -/
def foldWhile (test : DateTime → Bool) (combine : β → DateTime → β) (value : β)
    (cursor : Cursor) : Except Fault (β × Cursor) :=
  match _h : cursor.next with
  | .error fault => .error fault
  | .ok (none, cursor) => .ok (value, cursor)
  | .ok (some t, cursor) =>
      if test t then foldWhile test combine (combine value t) cursor else .ok (value, cursor)
termination_by cursor.rank
decreasing_by exact rank_lt_of_next _h

/-- Combines all further occurrences. -/
def fold (combine : β → DateTime → β) (value : β) (cursor : Cursor) : Except Fault (β × Cursor) :=
  cursor.foldWhile (fun _ => true) combine value

/-- Runs to the end and counts. -/
def count (cursor : Cursor) : Except Fault (Nat × Cursor) :=
  cursor.fold (fun n _ => n + 1) 0

/-- Runs to the end and keeps the last occurrence. -/
def last (cursor : Cursor) : Except Fault (Option DateTime × Cursor) :=
  cursor.fold (fun _ t => some t) none

/-- Up to `n` further occurrences, ended by the first that fails a test. -/
def takeWhile (test : DateTime → Bool) : Nat → Cursor → Except Fault (List DateTime)
  | 0, _ => .ok []
  | n + 1, cursor => do
      match ← cursor.next with
      | (none, _) => return []
      | (some t, cursor) =>
          if test t then
            let rest ← takeWhile test n cursor
            return t :: rest
          else
            return []

end Cursor

end Recurrence
