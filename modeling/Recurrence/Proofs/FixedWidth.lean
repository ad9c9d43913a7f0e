import Recurrence.FixedWidth.Calendar
import Recurrence.Proofs.Period
import Recurrence.Proofs.Answers

/-!
# The calendar needs no wide numbers

Counting in fixed width can go wrong in two ways: it may stop where counting without
end goes on, or go on with something else. `Follows` says that neither happens, that
whatever the exact computation answers the other one answers as well. The relation
passes through a sequence of computations and through the tests of a list, so it is
shown of each single operation and of nothing larger.

For each of them the bounds come from the calendar and not from the rule: a month has
at most 31 days, two weekdays are at most six days apart, the years end. Only the
ordinal of a weekday and the length of a step are bounded by the width in which they
are written down.
-/

namespace Recurrence.FixedWidth

variable {α β : Type}

/-- A computation on numbers of fixed width gives every answer that the exact one gives. -/
def Follows (limited : Except Halt α) (unlimited : Except Fault α) : Prop :=
  ∀ answer, unlimited = .ok answer → limited = .ok answer

namespace Follows

theorem ask (x : Except Fault α) : Follows (ask x) x := by
  rintro answer rfl
  rfl

theorem of_eq {y : Except Halt α} {answer : α} (h : y = .ok answer) : Follows y (.ok answer) := by
  rintro _ ⟨⟩
  exact h

theorem bind {y : Except Halt α} {x : Except Fault α} {g : α → Except Halt β}
    {f : α → Except Fault β} (h : Follows y x) (hrest : ∀ a, x = .ok a → Follows (g a) (f a)) :
    Follows (y >>= g) (x >>= f) := by
  intro answer hanswer
  obtain ⟨a, ha, hf⟩ := bind_eq_ok_iff.1 hanswer
  rw [h a ha, ok_bind]
  exact hrest a ha answer hf

theorem ite {p : Prop} [Decidable p] {y z : Except Halt α} {x w : Except Fault α}
    (h : p → Follows y x) (h' : ¬ p → Follows z w) :
    Follows (if p then y else z) (if p then x else w) := by
  by_cases hp : p
  · rw [if_pos hp, if_pos hp]
    exact h hp
  · rw [if_neg hp, if_neg hp]
    exact h' hp

theorem keepWhere {g : α → Except Halt Bool} {f : α → Except Fault Bool} {values : List α}
    (h : ∀ a ∈ values, Follows (g a) (f a)) :
    Follows (keepWhere g values) (keepWhere f values) := by
  induction values with
  | nil => exact of_eq rfl
  | cons a values ih =>
      refine bind (h a List.mem_cons_self) fun kept _ => ?_
      refine bind (ih fun b hb => h b (List.mem_cons_of_mem a hb)) fun rest _ => ?_
      exact of_eq rfl

theorem anyM {g : α → Except Halt Bool} {f : α → Except Fault Bool} {values : List α}
    (h : ∀ a ∈ values, Follows (g a) (f a)) : Follows (values.anyM g) (values.anyM f) := by
  induction values with
  | nil => exact of_eq rfl
  | cons a values ih =>
      rw [List.anyM_cons, List.anyM_cons]
      refine bind (h a List.mem_cons_self) fun found _ => ?_
      cases found with
      | true => exact of_eq rfl
      | false => exact ih fun b hb => h b (List.mem_cons_of_mem a hb)

end Follows

namespace Width

variable {result : Int}

theorem fit_eq {width : Width} (h : width.least ≤ result ∧ result ≤ width.greatest) :
    width.fit result = .ok result :=
  if_pos h

-- One instance for each width, so that its bounds stand there as numbers.

theorem fit_int8 (h : -128 ≤ result ∧ result ≤ 127) : int8.fit result = .ok result :=
  fit_eq h

theorem fit_int16 (h : -32768 ≤ result ∧ result ≤ 32767) : int16.fit result = .ok result :=
  fit_eq h

theorem fit_int64 (h : -9223372036854775808 ≤ result ∧ result ≤ 9223372036854775807) :
    int64.fit result = .ok result :=
  fit_eq h

theorem fit_word64 (h : 0 ≤ result ∧ result ≤ 18446744073709551615) :
    word64.fit result = .ok result :=
  fit_eq h

end Width

/-! ## Questions to the calendar -/

theorem resolveIndex_eq {width : Width} {length : Int} (hlength : 0 ≤ length)
    (hlow : width.least ≤ -length) (hhigh : length ≤ width.greatest) (index : Int) :
    resolveIndex width length index = .ok (Calendar.resolveIndex length index) := by
  unfold resolveIndex Calendar.resolveIndex
  split
  · rfl
  next hout =>
    split
    next hneg =>
      rw [Width.fit_eq (by omega), ok_bind]
      split
      next hin =>
        rw [Width.fit_eq (by omega), ok_bind, Width.fit_eq (by omega), ok_bind, if_pos (by omega)]
        rfl
      next hbefore =>
        rw [if_neg (by omega)]
        rfl
    next hpos => rw [if_neg (by omega)]

theorem follows_resolveMonthDay (year month index : Int) :
    Follows (resolveMonthDay year month index) (Calendar.resolveMonthDay year month index) := by
  refine Follows.bind (Follows.ask _) fun length hlength => Follows.of_eq ?_
  obtain ⟨first, -, heq⟩ := bind_eq_ok_iff.1 hlength
  cases heq
  have hbounds := Gregorian.monthLength_bounds year month
  exact resolveIndex_eq (by omega) (show (-128 : Int) ≤ _ by omega)
    (show _ ≤ (127 : Int) by omega) index

theorem follows_resolveYearDay (year index : Int) :
    Follows (resolveYearDay year index) (Calendar.resolveYearDay year index) := by
  refine Follows.bind (Follows.ask _) fun length hlength => ?_
  have hbounds : length = 365 ∨ length = 366 := by
    obtain ⟨leap, -, heq⟩ := bind_eq_ok_iff.1 hlength
    cases leap <;> cases heq <;> decide
  rw [resolveIndex_eq (by omega) (show (-32768 : Int) ≤ _ by omega)
    (show _ ≤ (32767 : Int) by omega), ok_bind]
  cases Calendar.resolveIndex length index with
  | none => exact Follows.of_eq rfl
  | some ordinal => exact Follows.bind (Follows.ask _) fun first _ => Follows.of_eq rfl

theorem daysAhead_eq {apart weeks : Int} (hapart : -6 ≤ apart ∧ apart ≤ 6)
    (hweeks : 0 ≤ weeks ∧ weeks ≤ 127) : daysAhead apart weeks = .ok (apart % 7 + 7 * weeks) := by
  rw [daysAhead, Width.fit_int8 (by omega), ok_bind, Width.fit_int64 (by omega), ok_bind,
    Width.fit_int64 (by omega)]

theorem follows_nthWeekday (start finish : Date) (weekday : Weekday) {ordinal : Int}
    (h : -128 ≤ ordinal ∧ ordinal ≤ 127) :
    Follows (nthWeekday start finish weekday ordinal)
      (Calendar.nthWeekday start finish weekday ordinal) := by
  have hstart := start.weekday.offset_nonneg
  have hstart' := start.weekday.offset_lt
  have hfinish := finish.weekday.offset_nonneg
  have hfinish' := finish.weekday.offset_lt
  have hlow := weekday.offset_nonneg
  have hhigh := weekday.offset_lt
  refine Follows.ite (fun _ _ h => nomatch h) fun hne =>
    Follows.ite (fun _ _ h => nomatch h) fun _ => Follows.of_eq ?_
  rw [Width.fit_int64 (by omega), ok_bind]
  by_cases hpos : 0 < ordinal
  · rw [if_pos hpos, if_pos hpos, daysAhead_eq (by omega) (by omega), ok_bind,
      show ((ordinal.natAbs : Int) - 1) = ordinal - 1 by omega]
    rfl
  · rw [if_neg hpos, if_neg hpos, daysAhead_eq (by omega) (by omega), ok_bind,
      show ((ordinal.natAbs : Int) - 1) = -ordinal - 1 by omega]
    rfl

/-! ## Periods -/

theorem timeOn_eq {date : Date} {hour minute second : Int} {t : DateTime} (hdate : t.date = date)
    (hhour : t.hour = hour) (hminute : t.minute = minute) (hsecond : t.secondOfMinute = second)
    (hwhole : t.nano = 0) : timeOn date hour minute second = .ok t := by
  rw [timeOn, DateTime.ofClock?_eq_some_iff.2 ⟨hdate, hhour, hminute, hsecond, hwhole⟩]

theorem containing_eq (frequency : Frequency) (t : DateTime) (weekStart : Weekday) :
    containing frequency t weekStart = .ok (Period.containing frequency t weekStart) := by
  cases frequency with
  | yearly | monthly | daily => rfl
  | weekly =>
      have hlow := t.date.weekday.offset_nonneg
      have hhigh := t.date.weekday.offset_lt
      have hlow' := weekStart.offset_nonneg
      have hhigh' := weekStart.offset_lt
      rw [containing, Width.fit_int8 (by omega)]
      rfl
  | hourly =>
      have hstart : timeOn t.date t.hour 0 0 = .ok t.startOfHour := by
        refine timeOn_eq (Date.ext_number ?_) ?_ ?_ ?_ rfl <;>
          simp only [DateTime.number_date, DateTime.hour, DateTime.minute,
            DateTime.secondOfMinute, DateTime.startOfHour] <;> omega
      rw [containing, hstart]
      rfl
  | minutely =>
      have hstart : timeOn t.date t.hour t.minute 0 = .ok t.startOfMinute := by
        refine timeOn_eq (Date.ext_number ?_) ?_ ?_ ?_ rfl <;>
          simp only [DateTime.number_date, DateTime.hour, DateTime.minute,
            DateTime.secondOfMinute, DateTime.startOfMinute] <;> omega
      rw [containing, hstart]
      rfl
  | secondly =>
      have hstart : timeOn t.date t.hour t.minute t.secondOfMinute = .ok t.wholeSecond :=
        timeOn_eq rfl rfl rfl rfl rfl
      rw [containing, hstart]
      rfl

theorem advance_eq {period : Period} (h : period.Valid) {steps : Nat}
    (hsteps : steps < 4294967296) : advance period steps = .ok (period.advance steps) := by
  cases period with
  | year y =>
      have hyear := Date.supportsYear_iff.1 h
      rw [advance, Width.fit_int64 (by omega)]
      rfl
  | month y m =>
      have hyear := Date.supportsYear_iff.1 h.1
      have hmonth := h.2
      rw [advance, Width.fit_int64 (by omega), ok_bind, Width.fit_int64 (by omega), ok_bind,
        Width.fit_int64 (by omega), ok_bind, Width.fit_int64 (by omega), ok_bind,
        Width.fit_int64 (by omega)]
      rfl
  | week first =>
      rw [advance, Width.fit_int64 (by omega)]
      rfl
  | day date => rfl
  | hour start | minute start | second start => rfl

end Recurrence.FixedWidth
