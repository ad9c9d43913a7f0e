import Mathlib.Data.List.ReduceOption
import Recurrence.Proofs.Sequence

/-!
# Calls of a cursor

A cursor may be called as often as one likes, also when it has nothing more to give.
`Cursor.calls` is the record of so many calls from the beginning, the answers
together with the cursor they leave behind, and every state that a cursor comes to is
the end of such a record. `exists_calls` writes the record out: the occurrences of the
rule one by one, and nothing from then on.

That a call ends at all is not taken from the definition of `next`. `nextWithin` is
its loop cut off after a number of steps, and for every cursor there is a number with
which it is not cut off. In the same way `toListWithin` computes a whole run.
-/

namespace Recurrence

namespace Cursor

/-- The loop of a call with a limit for its steps; none when the limit is too low. -/
def nextWithin {ε : Type} (step : Cursor → Except ε Step) :
    Nat → Cursor → Option (Except ε (Option DateTime × Cursor))
  | 0, _ => none
  | limit + 1, cursor =>
      match step cursor with
      | .error fault => some (.error fault)
      | .ok .finish => some (.ok (none, { cursor with place := .exhausted }))
      | .ok (.emit t place) =>
          some (.ok (some t, { cursor with place := place, emitted := cursor.emitted + 1 }))
      | .ok (.resume place) => nextWithin step limit { cursor with place := place }

/-- The answers to so many calls, the first one first, and the cursor behind them. -/
def calls : Nat → Cursor → Except Fault (List (Option DateTime) × Cursor)
  | 0, cursor => .ok ([], cursor)
  | n + 1, cursor => do
      let (answers, later) ← calls n cursor
      let (answer, later) ← later.next
      return (answers ++ [answer], later)

/-- The loop of a call ends by itself. -/
theorem exists_nextWithin (cursor : Cursor) :
    ∃ limit, nextWithin step limit cursor = some cursor.next := by
  fun_induction next cursor with
  | case1 cursor fault hstep => exact ⟨1, by rw [nextWithin, hstep]⟩
  | case2 cursor hstep => exact ⟨1, by rw [nextWithin, hstep]⟩
  | case3 cursor t place hstep => exact ⟨1, by rw [nextWithin, hstep]⟩
  | case4 cursor place hstep ih =>
      obtain ⟨limit, hlimit⟩ := ih
      exact ⟨limit + 1, by rw [nextWithin, hstep]; exact hlimit⟩

/-- A loop that is not cut off is the call. -/
theorem next_of_nextWithin {limit : Nat} {cursor : Cursor}
    {answer : Except Fault (Option DateTime × Cursor)}
    (h : nextWithin step limit cursor = some answer) : cursor.next = answer := by
  induction limit generalizing cursor with
  | zero => cases h
  | succ limit ih =>
      rw [nextWithin] at h
      rw [next]
      -- Both look at one step, so cases in which they would see different ones contradict.
      split at h <;> split <;> simp_all

/-- All that a cursor hands out, with a limit for the steps to its end; none when the limit is
too low. -/
def toListWithin : Nat → Cursor → Option (List DateTime)
  | 0, _ => none
  | limit + 1, cursor =>
      match cursor.step with
      | .error _ => none
      | .ok .finish => some []
      | .ok (.emit t place) =>
          (toListWithin limit
            { cursor with place := place, emitted := cursor.emitted + 1 }).map (t :: ·)
      | .ok (.resume place) => toListWithin limit { cursor with place := place }

theorem toList_of_toListWithin {limit : Nat} {cursor : Cursor} {all : List DateTime}
    (h : cursor.Ready) (hall : toListWithin limit cursor = some all) :
    cursor.toList = .ok all := by
  rw [toList_eq h, Except.ok.injEq]
  induction limit generalizing cursor all with
  | zero => cases hall
  | succ limit ih =>
      rw [toListWithin] at hall
      split at hall
      next => cases hall
      next hstep =>
        cases hall
        exact finds_of_step h hstep
      next hstep =>
        obtain ⟨rest, hrest, rfl⟩ := Option.map_eq_some_iff.1 hall
        obtain ⟨hplace, hremainder⟩ := finds_of_step h hstep
        rw [hremainder]
        exact congrArg _ (ih ⟨h.rule, hplace⟩ hrest)
      next hstep =>
        obtain ⟨hplace, hremainder⟩ := finds_of_step h hstep
        rw [hremainder]
        exact ih ⟨h.rule, hplace⟩ hall

/-- A property of what has been handed out and of the cursor behind it that no step breaks. -/
structure Keeps (P : List DateTime → Cursor → Prop) : Prop where
  resume : ∀ {handed : List DateTime} {cursor : Cursor} {place : Place}, P handed cursor →
    cursor.step = .ok (.resume place) → P handed { cursor with place := place }
  emit : ∀ {handed : List DateTime} {cursor : Cursor} {t : DateTime} {place : Place},
    P handed cursor → cursor.step = .ok (.emit t place) →
      P (handed ++ [t]) { cursor with place := place, emitted := cursor.emitted + 1 }
  finish : ∀ {handed : List DateTime} {cursor : Cursor}, P handed cursor →
    P handed { cursor with place := .exhausted }

section Keeps

variable {P : List DateTime → Cursor → Prop} {cursor later : Cursor}

theorem Keeps.after_next (hkeeps : Keeps P) {handed : List DateTime} (h : P handed cursor)
    {answer : Option DateTime} (hnext : cursor.next = .ok (answer, later)) :
    P (handed ++ answer.toList) later := by
  fun_induction next cursor with
  | case1 cursor fault hstep => cases hnext
  | case2 cursor hstep =>
      cases hnext
      rw [Option.toList_none, List.append_nil]
      exact hkeeps.finish h
  | case3 cursor t place hstep =>
      cases hnext
      exact hkeeps.emit h hstep
  | case4 cursor place hstep ih => exact ih (hkeeps.resume h hstep) hnext

/-- So no calls break it either. -/
theorem Keeps.after_calls (hkeeps : Keeps P) (h : P [] cursor) {n : Nat}
    {answers : List (Option DateTime)} (hcalls : cursor.calls n = .ok (answers, later)) :
    P answers.reduceOption later := by
  induction n generalizing answers later with
  | zero =>
      cases hcalls
      exact h
  | succ n ih =>
      obtain ⟨⟨before, earlier⟩, hbefore, hcalls⟩ := bind_eq_ok_iff.1 hcalls
      obtain ⟨⟨answer, following⟩, hnext, hcalls⟩ := bind_eq_ok_iff.1 hcalls
      cases hcalls
      rw [List.reduceOption_append, List.reduceOption_singleton]
      exact hkeeps.after_next (ih hbefore) hnext

end Keeps

/-- A call that hands out an occurrence counts it and does not end the run. -/
theorem counts_of_next {cursor later : Cursor} {t : DateTime}
    (h : cursor.next = .ok (some t, later)) :
    later.rule = cursor.rule ∧ later.emitted = cursor.emitted + 1 ∧
      later.isExhausted = false := by
  fun_induction next cursor with
  | case1 cursor fault hstep => cases h
  | case2 cursor hstep => cases h
  | case3 cursor t' place hstep =>
      cases h
      obtain ⟨_, _, later, rest, -, rfl, -⟩ := exists_walk_of_step hstep rfl
      exact ⟨rfl, rfl, rfl⟩
  | case4 cursor place hstep ih => exact ih h

end Cursor

namespace Rule

/-- What holds of the cursor of a rule after so many calls. -/
structure Called (rule : Rule) (n : Nat) (cursor : Cursor) : Prop where
  ready : cursor.Ready
  sameRule : cursor.rule = rule
  remainder : cursor.remainder = rule.occurrences.drop n
  emitted : cursor.emitted = Min.min n rule.occurrences.length
  isExhausted : cursor.isExhausted = true ↔ rule.occurrences.length < n

variable {rule : Rule} {n : Nat}

theorem called_zero (hrule : rule.Valid) : rule.Called 0 rule.cursor where
  ready := ready_cursor hrule
  sameRule := rfl
  remainder := rfl
  emitted := (Nat.zero_min _).symm
  isExhausted := iff_of_false Bool.false_ne_true (Nat.not_lt_zero _)

/-- One more call answers with the next occurrence, or with nothing when there are no more. -/
theorem Called.next {cursor : Cursor} (h : rule.Called n cursor) :
    ∃ later, cursor.next = .ok (rule.occurrences[n]?, later) ∧ rule.Called (n + 1) later := by
  have hemitted := h.emitted
  rcases Cursor.next_cases h.ready with ⟨hnil, hnext⟩ | ⟨t, later, hnext, hlater, hcons⟩
  · rw [h.remainder, List.drop_eq_nil_iff] at hnil
    rw [List.getElem?_eq_none hnil]
    refine ⟨_, hnext, ⟨h.ready.rule, trivial⟩, h.sameRule, ?_, ?_, ?_⟩
    · rw [List.drop_eq_nil_of_le (by omega)]
      exact Rule.cut_nil
    · show cursor.emitted = _
      omega
    · exact iff_of_true rfl (by omega)
  · obtain ⟨hrule, hcount, hpositioned⟩ := Cursor.counts_of_next hnext
    rw [h.remainder] at hcons
    have hlt : n < rule.occurrences.length := by
      by_contra hout
      rw [List.drop_eq_nil_of_le (by omega)] at hcons
      cases hcons
    rw [List.drop_eq_getElem_cons hlt, List.cons_eq_cons] at hcons
    rw [List.getElem?_eq_getElem hlt, hcons.1]
    refine ⟨later, hnext, hlater, hrule.trans h.sameRule, hcons.2.symm, ?_, ?_⟩
    · omega
    · rw [hpositioned]
      exact iff_of_false Bool.false_ne_true (by omega)

/-- The record of so many calls: each answers with the occurrence of its number, if there is. -/
theorem exists_calls (hrule : rule.Valid) (n : Nat) :
    ∃ later, rule.cursor.calls n =
      .ok ((List.range n).map fun k => rule.occurrences[k]?, later) ∧ rule.Called n later := by
  induction n with
  | zero => exact ⟨rule.cursor, rfl, called_zero hrule⟩
  | succ n ih =>
      obtain ⟨cursor, hcalls, hcalled⟩ := ih
      obtain ⟨later, hnext, hlater⟩ := hcalled.next
      refine ⟨later, ?_, hlater⟩
      simp only [Cursor.calls, hcalls, hnext, ok_bind, List.range_succ, List.map_append,
        List.map_singleton]
      rfl

/-- Of so many places of a list no more are taken than it is long. -/
theorem countP_getElem?_le {α : Type} (values : List α) (n : Nat) :
    ((List.range n).map fun k => values[k]?).countP Option.isSome ≤
      Min.min n values.length := by
  induction n with
  | zero => exact Nat.zero_le _
  | succ n ih =>
      rw [List.range_succ, List.map_append, List.countP_append, List.map_singleton,
        List.countP_singleton]
      split
      next htaken =>
        have hlt := (List.getElem?_eq_some_iff.1 (Option.eq_some_of_isSome htaken)).1
        omega
      next => omega

/-- However often the cursor of a built rule is called, each call ends and answers, only so many
calls hand out an occurrence, behind a call without one there is none with one, and a cursor is at
its end exactly if there was such a call. -/
theorem calls_end {draft : Draft} (hbuild : draft.build = .ok rule) :
    ∃ total : Nat, ∀ n, ∃ answers later, rule.cursor.calls n = .ok (answers, later) ∧
      (∃ limit answer, Cursor.nextWithin Cursor.step limit later = some (.ok answer) ∧
        later.next = .ok answer) ∧
      answers.countP Option.isSome ≤ total ∧
      answers.Pairwise (fun earlier answer => earlier = none → answer = none) ∧
      (later.isExhausted = true ↔ none ∈ answers) := by
  refine ⟨rule.occurrences.length, fun n => ?_⟩
  obtain ⟨later, hcalls, hcalled⟩ := exists_calls (valid_of_build hbuild) n
  obtain ⟨limit, hlimit⟩ := later.exists_nextWithin
  obtain ⟨following, hnext, -⟩ := hcalled.next
  refine ⟨_, later, hcalls, ⟨limit, _, hnext ▸ hlimit, hnext⟩, ?_, ?_, ?_⟩
  · have hcount := countP_getElem?_le rule.occurrences n
    omega
  · refine List.pairwise_map.2 (List.pairwise_lt_range.imp fun {j k} hjk hnone => ?_)
    rw [List.getElem?_eq_none_iff] at hnone ⊢
    omega
  · rw [hcalled.isExhausted, List.mem_map]
    simp only [List.mem_range, List.getElem?_eq_none_iff]
    exact ⟨fun hlt => ⟨rule.occurrences.length, hlt, le_refl _⟩, fun ⟨k, hk, hle⟩ => by omega⟩

/-- Each February 30, of which there is none. -/
def thirtiethOfFebruary : Rule where
  frequency := .yearly
  interval := 1
  interval_pos := Nat.one_pos
  anchor := .ofDate .min
  limit := none
  months := [2]
  monthDays := [30]
  yearDays := []
  weekNumbers := []
  weekdays := []
  hours := []
  minutes := []
  seconds := []
  positions := []
  weekStart := .monday

theorem build_thirtiethOfFebruary :
    thirtiethOfFebruary.draft.build = .ok thirtiethOfFebruary :=
  rfl

theorem calls_end_thirtiethOfFebruary :
    thirtiethOfFebruary.draft.build = .ok thirtiethOfFebruary ∧
      ∃ total : Nat, ∀ n, ∃ answers later,
        thirtiethOfFebruary.cursor.calls n = .ok (answers, later) ∧
        (∃ limit answer, Cursor.nextWithin Cursor.step limit later = some (.ok answer) ∧
          later.next = .ok answer) ∧
        answers.countP Option.isSome ≤ total ∧ (later.isExhausted = true ↔ none ∈ answers) := by
  obtain ⟨total, htotal⟩ := calls_end build_thirtiethOfFebruary
  refine ⟨build_thirtiethOfFebruary, total, fun n => ?_⟩
  obtain ⟨answers, later, hcalls, hloop, hcount, -, hend⟩ := htotal n
  exact ⟨answers, later, hcalls, hloop, hcount, hend⟩

end Rule

end Recurrence
