import Recurrence.FixedWidth.Conversions
import Recurrence.Proofs.FixedWidth
import Recurrence.Proofs.Steps

/-!
# Steps are addition

Where a period begins can be said for one that lies past the end of the calendar as
well, since years, months, days and seconds are numbered on without end. `opensAfter`
numbers the beginnings in this way, and all that there is to know about a step is then
a comparison of numbers: it leads to the period that begins there
(`opens_of_advance`), it leads nowhere exactly if that is after the last moment of the
calendar (`advance_eq_none_iff`), and more units lead further (`opensAfter_lt`).

So no number on the way of a step is ever to blame for an end: as long as the calendar
goes on, each of them fits (`fitsStep_of_advance`).
-/

namespace Recurrence

/-- The last moment of the calendar. -/
def DateTime.max : DateTime :=
  ⟨(Date.max.number + 1) * 86400 - 1, 999999999, by decide, by decide, by decide⟩

theorem Date.addDays?_eq_none_iff {date : Date} {days : Int} (h : 0 ≤ days) :
    date.addDays? days = none ↔ Date.max.number < date.number + days := by
  have hfirst := date.first_le
  simp only [addDays?, ofNumber?, max, dite_eq_right_iff, reduceCtorEq, imp_false]
  omega

theorem DateTime.addSeconds?_eq_none_iff {t : DateTime} {seconds : Int} (h : 0 ≤ seconds) :
    t.addSeconds? seconds = none ↔ DateTime.max.second < t.second + seconds := by
  have hfirst := t.first_le
  simp only [addSeconds?, max, Date.max, dite_eq_right_iff, reduceCtorEq, imp_false]
  omega

namespace Gregorian

theorem monthStart_lt {i j : Int} (h : i < j) : monthStart i < monthStart j := by
  have hlength := monthLength_bounds (i / 12) (i % 12 + 1)
  have hle := monthStart_le (show i + 1 ≤ j by omega)
  rw [monthStart_succ] at hle
  omega

/-- The years up to 9999 are those whose first day the calendar has. -/
theorem le_maxYear_iff (year : Int) :
    year ≤ Date.maxYear ↔ daysBeforeYear year ≤ Date.max.number := by
  simp only [daysBeforeYear, Date.maxYear, Date.max]
  omega

/-- The months up to the last one of year 9999 are those whose first day the calendar has. -/
theorem div_le_maxYear_iff (index : Int) :
    index / 12 ≤ Date.maxYear ↔ monthStart index ≤ Date.max.number := by
  have hlast : monthStart 119999 ≤ Date.max.number := by decide
  have hbehind : Date.max.number < monthStart 120000 := by decide
  unfold Date.maxYear
  constructor
  · intro h
    have hle := monthStart_le (show index ≤ 119999 by omega)
    omega
  · intro h
    by_contra hlater
    have hle := monthStart_le (show 120000 ≤ index by omega)
    omega

end Gregorian

namespace Period

/-- The second with which the period so many units later begins, be it in the calendar or
not. -/
def opensAfter (period : Period) (units : Nat) : Int :=
  match period with
  | year y => Gregorian.daysBeforeYear (y + units) * 86400
  | month y m => Gregorian.monthStart (monthIndex y m + units) * 86400
  | week first => (first.number + 7 * units) * 86400
  | day date => (date.number + units) * 86400
  | hour start => start.second + 3600 * units
  | minute start => start.second + 60 * units
  | second start => start.second + units

variable {period later : Period} {steps : Nat}

theorem opensAfter_lt (period : Period) {a b : Nat} (h : a < b) :
    period.opensAfter a < period.opensAfter b := by
  cases period with
  | year y =>
      have hlt := Gregorian.daysBeforeYear_lt (show y + (a : Int) < y + b by omega)
      simp only [opensAfter]
      omega
  | month y m =>
      have hlt := Gregorian.monthStart_lt
        (show monthIndex y m + (a : Int) < monthIndex y m + b by omega)
      simp only [opensAfter]
      omega
  | week first | day first | hour first | minute first | second first =>
      simp only [opensAfter]
      omega

theorem opens_of_advance (hadvance : period.advance steps = some later) :
    later.opens = period.opensAfter steps := by
  cases period with
  | year y | month y m =>
      simp only [advance] at hadvance
      split at hadvance
      · cases hadvance
        rfl
      · cases hadvance
  | week first | day first =>
      obtain ⟨date, hdate, rfl⟩ := Option.map_eq_some_iff.1 hadvance
      simp only [opens, firstNumber, opensAfter, number_of_addDays? hdate]
  | hour start | minute start | second start =>
      obtain ⟨t, ht, rfl⟩ := Option.map_eq_some_iff.1 hadvance
      simp only [opens, opensAfter, second_of_addSeconds? ht]

theorem valid_of_advance (h : period.Valid) (hadvance : period.advance steps = some later) :
    later.Valid := by
  cases period with
  | year y =>
      have haligned : (year y).Aligned := h
      exact (aligned_of_advance haligned hadvance).valid
  | month y m =>
      have haligned : (month y m).Aligned := h
      exact (aligned_of_advance haligned hadvance).valid
  | week first | day first | hour first | minute first | second first =>
      obtain ⟨_, -, rfl⟩ := Option.map_eq_some_iff.1 hadvance
      trivial

theorem advance_eq_none_iff (h : period.Valid) :
    period.advance steps = none ↔ DateTime.max.second < period.opensAfter steps := by
  -- The last moment is the second in front of the day behind the last one.
  have hmax : DateTime.max.second = (Date.max.number + 1) * 86400 - 1 := rfl
  cases period with
  | year y =>
      have hyear := Date.supportsYear_iff.1 h
      have hlast := Gregorian.le_maxYear_iff (y + steps)
      simp only [Date.maxYear] at hlast
      simp only [advance, ite_eq_right_iff, reduceCtorEq, imp_false, Date.supportsYear_iff,
        opensAfter]
      omega
  | month y m =>
      have hyear := Date.supportsYear_iff.1 h.1
      have hmonth := h.2
      have hlast := Gregorian.div_le_maxYear_iff (monthIndex y m + steps)
      simp only [Date.maxYear] at hlast
      have hlow : -9999 ≤ (monthIndex y m + steps) / 12 := by
        unfold monthIndex
        omega
      simp only [advance, ite_eq_right_iff, reduceCtorEq, imp_false, Date.supportsYear_iff,
        opensAfter]
      omega
  | week first | day first =>
      rw [advance, Option.map_eq_none_iff, Date.addDays?_eq_none_iff (by omega), opensAfter]
      omega
  | hour start | minute start | second start =>
      rw [advance, Option.map_eq_none_iff, DateTime.addSeconds?_eq_none_iff (by omega), opensAfter]

theorem exists_start_of_advance (h : period.Valid)
    (hadvance : period.advance steps = some later) :
    ∃ start, later.start = .ok start ∧ start.second = period.opensAfter steps := by
  obtain ⟨start, hstart, hopens, -⟩ := exists_start (valid_of_advance h hadvance)
  exact ⟨start, hstart, hopens.trans (opens_of_advance hadvance)⟩

end Period

namespace FixedWidth

theorem isSome_toInt16? {value : Int} (h : -32768 ≤ value ∧ value ≤ 32767) :
    (toInt16? value).isSome = true := by
  rw [toInt16?, if_pos h, Option.isSome_some]

theorem isSome_toInt8? {value : Int} (h : -128 ≤ value ∧ value ≤ 127) :
    (toInt8? value).isSome = true := by
  rw [toInt8?, if_pos h, Option.isSome_some]

/-- A number of a step that leads somewhere fits where it is put. -/
theorem fitsStep_of_advance {period later : Period} {steps : Nat} (h : period.Valid)
    (hadvance : period.advance steps = some later) : fitsStep period steps = true := by
  cases period with
  | year y =>
      simp only [Period.advance] at hadvance
      split at hadvance
      next hyear =>
        rw [Date.supportsYear_iff] at hyear
        exact isSome_toInt16? (by omega)
      · cases hadvance
  | month y m =>
      simp only [Period.advance] at hadvance
      split at hadvance
      next hyear =>
        rw [Date.supportsYear_iff] at hyear
        rw [fitsStep, isSome_toInt16? (by omega), isSome_toInt8? (by omega)]
        rfl
      · cases hadvance
  | week first | day first =>
      obtain ⟨date, hdate, -⟩ := Option.map_eq_some_iff.1 hadvance
      have hnumber := Period.number_of_addDays? hdate
      have hfirst := first.first_le
      have hlast := date.le_last
      simp only [fitsStep, SpanUnit.holds_iff, SpanUnit.greatest]
      omega
  | hour start | minute start | second start =>
      obtain ⟨t, ht, -⟩ := Option.map_eq_some_iff.1 hadvance
      have hsecond := Period.second_of_addSeconds? ht
      have hfirst := start.first_le
      have hend := t.lt_end
      simp only [fitsStep, SpanUnit.holds_iff, SpanUnit.greatest]
      omega

theorem advanceWithin_eq {period : Period} (h : period.Valid) {steps : Nat}
    (hsteps : steps < 4294967296) :
    advanceWithin period steps = .ok (period.advance steps) := by
  unfold advanceWithin
  split
  · exact advance_eq h hsteps
  next hnarrow =>
    cases hadvance : period.advance steps with
    | none => rfl
    | some later => exact absurd (fitsStep_of_advance h hadvance) hnarrow

end FixedWidth

namespace Period

/-- Steps of a period of the calendar are exact addition. No number on the way is too large for
its place, one step and then another are one step of both lengths, none of length zero leads away,
and a step leads nowhere exactly if the period that so many units later begins would begin after
the last moment of the calendar. Otherwise it leads to the period that begins there, so that a
longer step leads to a later beginning. -/
theorem advance_is_addition {period : Period} (h : period.Valid) :
    (∀ a : UInt32, FixedWidth.advanceWithin period a.toNat = .ok (period.advance a.toNat)) ∧
    (∀ a b : UInt32, a.toNat + b.toNat < 4294967296 →
      period.advance (a + b).toNat = (period.advance a.toNat).bind (·.advance b.toNat)) ∧
    period.advance (0 : UInt32).toNat = some period ∧
    (∀ a : UInt32, period.advance a.toNat = none ↔
      DateTime.max.second < period.opensAfter a.toNat) ∧
    (∀ (a : UInt32) (later : Period), period.advance a.toNat = some later →
      ∃ start, later.start = .ok start ∧ start.second = period.opensAfter a.toNat) ∧
    ∀ (a b : UInt32) (p q : Period), a < b → period.advance a.toNat = some p →
      period.advance b.toNat = some q →
        ∃ start finish, p.start = .ok start ∧ q.start = .ok finish ∧ start < finish := by
  refine ⟨fun a => FixedWidth.advanceWithin_eq h a.toNat_lt, fun a b hsum => ?_,
    advance_zero h, fun a => advance_eq_none_iff h, fun a later => exists_start_of_advance h,
    fun a b p q hab hp hq => ?_⟩
  · rw [UInt32.toNat_add, Nat.mod_eq_of_lt hsum, advance_add h]
  · obtain ⟨start, hstart, hopens⟩ := exists_start_of_advance h hp
    obtain ⟨finish, hfinish, hcloses⟩ := exists_start_of_advance h hq
    have hlt := period.opensAfter_lt (UInt32.lt_iff_toNat_lt.1 hab)
    refine ⟨start, finish, hstart, hfinish, ?_⟩
    rw [DateTime.lt_iff]
    omega

/-- From the last month but one a single step is left. -/
theorem advance_is_addition_lastMonths :
    (month 9999 11).Valid ∧
      FixedWidth.advanceWithin (month 9999 11) (1 : UInt32).toNat =
        .ok ((month 9999 11).advance (1 : UInt32).toNat) ∧
      (month 9999 11).advance (1 + 1 : UInt32).toNat =
        ((month 9999 11).advance (1 : UInt32).toNat).bind (·.advance (1 : UInt32).toNat) ∧
      (month 9999 11).advance (1 : UInt32).toNat = some (month 9999 12) ∧
      (month 9999 11).advance (1 + 1 : UInt32).toNat = none ∧
      ∃ start finish, (month 9999 11).start = .ok start ∧ (month 9999 12).start = .ok finish ∧
        start < finish := by
  have hvalid : (month 9999 11).Valid := ⟨rfl, by decide, by decide⟩
  obtain ⟨hwithin, hsum, hzero, hend, -, hlater⟩ := advance_is_addition hvalid
  have hone : (month 9999 11).advance (1 : UInt32).toNat = some (month 9999 12) := rfl
  exact ⟨hvalid, hwithin 1, hsum 1 1 (by decide), hone, (hend (1 + 1)).2 (by decide),
    hlater 0 1 _ _ (by decide) hzero hone⟩

end Period

end Recurrence
