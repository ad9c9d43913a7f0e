import Mathlib.Order.SuccPred.Basic
import Mathlib.Algebra.Order.Group.Int
import Recurrence.Period.Basic
import Recurrence.Proofs.Calendar

/-!
# Periods as stretches of time

A period is written down by its first moment or by the number of its year; what
the walk through periods needs to know of it is the stretch of time it covers.
`opens` and `closes` are the ends of that stretch in seconds, the second one
excluded, and `contains_iff` says that to lie in a period, by its days and the
parts of the clock that it fixes, is to lie between them.

A period that a walk visits begins where its unit begins, at a full hour for
instance. That is `Aligned`; the period around a date-time has it
(`aligned_containing`), and a step keeps it and does not come back
(`closes_le_opens_of_advance`).
-/

namespace Recurrence

namespace Gregorian

/-- The number of the first day of a month, the months being counted through from year 0. -/
def monthStart (index : Int) : Int :=
  dayNumber (index / 12) (index % 12 + 1) 1

theorem monthStart_monthIndex {year month : Int} (h : 1 ≤ month ∧ month ≤ 12) :
    monthStart (Period.monthIndex year month) = dayNumber year month 1 := by
  unfold monthStart Period.monthIndex
  rw [show (year * 12 + month - 1) / 12 = year by omega,
    show (year * 12 + month - 1) % 12 + 1 = month by omega]

/-- A month begins where the one before it ends, across the turn of the year too. -/
theorem monthStart_succ (index : Int) :
    monthStart (index + 1) = monthStart index + monthLength (index / 12) (index % 12 + 1) := by
  unfold monthStart dayNumber
  by_cases h : index % 12 + 1 ≤ 11
  · rw [show (index + 1) / 12 = index / 12 by omega,
      show (index + 1) % 12 + 1 = index % 12 + 1 + 1 by omega,
      daysBeforeMonth_succ (by omega) h]
    omega
  · rw [show (index + 1) / 12 = index / 12 + 1 by omega,
      show (index + 1) % 12 + 1 = 1 by omega, show index % 12 + 1 = 12 by omega,
      daysBeforeYear_succ]
    unfold daysBeforeMonth monthLength yearLength
    cases isLeap (index / 12) <;> cases isLeap (index / 12 + 1) <;> simp <;> omega

theorem monthStart_le {i j : Int} (h : i ≤ j) : monthStart i ≤ monthStart j := by
  refine monotone_int_of_le_succ (fun k => ?_) h
  have := monthLength_bounds (k / 12) (k % 12 + 1)
  rw [monthStart_succ]
  omega

end Gregorian

namespace Period

/-- A period that the calendar has. -/
def Valid : Period → Prop
  | year y => Date.supportsYear y = true
  | month y m => Date.supportsYear y = true ∧ 1 ≤ m ∧ m ≤ 12
  | week _ | day _ | hour _ | minute _ | second _ => True

/-- A period that the calendar has and that begins where its unit begins. -/
def Aligned : Period → Prop
  | year y => Date.supportsYear y = true
  | month y m => Date.supportsYear y = true ∧ 1 ≤ m ∧ m ≤ 12
  | week _ | day _ => True
  | hour start => start.second % 3600 = 0 ∧ start.nano = 0
  | minute start => start.second % 60 = 0 ∧ start.nano = 0
  | second start => start.nano = 0

theorem nano_of_addSeconds? {t later : DateTime} {seconds : Int}
    (h : t.addSeconds? seconds = some later) : later.nano = t.nano := by
  unfold DateTime.addSeconds? at h
  split at h
  · cases h
    rfl
  · cases h

theorem Aligned.valid {period : Period} (h : period.Aligned) : period.Valid := by
  cases period with
  | year y => exact h
  | month y m => exact h
  | week first | day first | hour first | minute first | second first => trivial

/-! ## Days -/

/-- The number of the first day of a period. -/
def firstNumber : Period → Int
  | year y => Gregorian.daysBeforeYear y
  | month y m => Gregorian.dayNumber y m 1
  | week first => first.number
  | day date => date.number
  | hour start | minute start | second start => start.date.number

/-- The number of the last day of a period. -/
def lastNumber : Period → Int
  | year y => Gregorian.daysBeforeYear (y + 1) - 1
  | month y m => Gregorian.dayNumber y m 1 + Gregorian.monthLength y m - 1
  | week first => Min.min (first.number + 6) Date.max.number
  | day date => date.number
  | hour start | minute start | second start => start.date.number

theorem exists_dateOf {year month day : Int} (hyear : Date.supportsYear year = true)
    (hmonth : 1 ≤ month ∧ month ≤ 12) (hday : 1 ≤ day ∧ day ≤ Gregorian.monthLength year month) :
    ∃ date, dateOf year month day = .ok date ∧
      date.number = Gregorian.dayNumber year month day := by
  obtain ⟨date, hdate, hnumber⟩ := Date.exists_ofFields? hyear hmonth hday
  exact ⟨date, by rw [dateOf, hdate], hnumber⟩

theorem ofFields?_of_dateOf {year month day : Int} {date : Date}
    (h : dateOf year month day = .ok date) : Date.ofFields? year month day = some date := by
  unfold dateOf at h
  split at h
  next found hfound =>
    cases h
    exact hfound
  next => cases h

theorem exists_firstDay {period : Period} (h : period.Valid) :
    ∃ first, period.firstDay = .ok first ∧ first.number = period.firstNumber := by
  cases period with
  | year y =>
      have := Gregorian.monthLength_bounds y 1
      obtain ⟨first, hfirst, hnumber⟩ := exists_dateOf h (show 1 ≤ 1 ∧ 1 ≤ 12 by omega)
        (show 1 ≤ 1 ∧ 1 ≤ Gregorian.monthLength y 1 by omega)
      refine ⟨first, hfirst, ?_⟩
      rw [hnumber, firstNumber, Gregorian.dayNumber, Gregorian.daysBeforeMonth]
      simp
  | month y m =>
      have := Gregorian.monthLength_bounds y m
      exact exists_dateOf h.1 h.2 ⟨by omega, by omega⟩
  | week first => exact ⟨first, rfl, rfl⟩
  | day date => exact ⟨date, rfl, rfl⟩
  | hour start | minute start | second start => exact ⟨start.date, rfl, rfl⟩

theorem exists_lastDay {period : Period} (h : period.Valid) :
    ∃ last, period.lastDay = .ok last ∧ last.number = period.lastNumber := by
  cases period with
  | year y =>
      have : Gregorian.monthLength y 12 = 31 := rfl
      obtain ⟨last, hlast, hnumber⟩ := exists_dateOf h (show 1 ≤ 12 ∧ 12 ≤ 12 by omega)
        (show 1 ≤ 31 ∧ 31 ≤ Gregorian.monthLength y 12 by omega)
      refine ⟨last, hlast, ?_⟩
      rw [hnumber, lastNumber, Gregorian.daysBeforeYear_succ, Gregorian.dayNumber,
        Gregorian.daysBeforeMonth, Gregorian.yearLength]
      cases Gregorian.isLeap y <;> simp <;> omega
  | month y m =>
      have := Gregorian.monthLength_bounds y m
      obtain ⟨last, hlast, hnumber⟩ :=
        exists_dateOf h.1 h.2 (show 1 ≤ Gregorian.monthLength y m ∧ _ from ⟨by omega, le_refl _⟩)
      refine ⟨last, hlast, ?_⟩
      rw [hnumber, lastNumber, Gregorian.dayNumber, Gregorian.dayNumber]
      omega
  | week first =>
      refine ⟨_, rfl, ?_⟩
      have := first.first_le
      unfold Date.addDays? Date.ofNumber? lastNumber Date.max
      split
      · simp only [Option.getD_some]
        omega
      · simp only [Option.getD_none]
        omega
  | day date => exact ⟨date, rfl, rfl⟩
  | hour start | minute start | second start => exact ⟨start.date, rfl, rfl⟩

theorem firstNumber_le_lastNumber {period : Period} (h : period.Valid) :
    period.firstNumber ≤ period.lastNumber := by
  cases period with
  | year y =>
      have := Gregorian.yearLength_bounds y
      rw [firstNumber, lastNumber, Gregorian.daysBeforeYear_succ]
      omega
  | month y m =>
      have := Gregorian.monthLength_bounds y m
      rw [firstNumber, lastNumber]
      omega
  | week first =>
      have := first.le_last
      simp only [firstNumber, lastNumber, Date.max]
      omega
  | day date => exact le_refl _
  | hour start | minute start | second start => exact le_refl _

theorem lastNumber_le (period : Period) : period.lastNumber ≤ period.firstNumber + 365 := by
  cases period with
  | year y =>
      have hlength := Gregorian.yearLength_bounds y
      have hnext := Gregorian.daysBeforeYear_succ y
      simp only [lastNumber, firstNumber]
      omega
  | month y m =>
      have hlength := Gregorian.monthLength_bounds y m
      simp only [lastNumber, firstNumber]
      omega
  | week first | day first | hour first | minute first | second first =>
      simp only [lastNumber, firstNumber]
      omega

/-- The days of a period are the dates from its first to its last one, in order. -/
theorem exists_days {period : Period} (h : period.Valid) :
    ∃ days, period.days = .ok days ∧ days.Pairwise (· < ·) ∧ ∀ date, date ∈ days ↔
      period.firstNumber ≤ date.number ∧ date.number ≤ period.lastNumber := by
  obtain ⟨first, hfirst, hfirstNumber⟩ := exists_firstDay h
  obtain ⟨last, hlast, hlastNumber⟩ := exists_lastDay h
  refine ⟨first.upTo last, ?_, Date.pairwise_upTo first last, fun date => ?_⟩
  · simp only [days, hfirst, hlast, bind, Except.bind]
    rfl
  · rw [Date.mem_upTo, Date.le_iff, Date.le_iff, hfirstNumber, hlastNumber]

theorem mem_days_iff {period : Period} (h : period.Valid) (date : Date) :
    (∃ days, period.days = .ok days ∧ date ∈ days) ↔
      period.firstNumber ≤ date.number ∧ date.number ≤ period.lastNumber := by
  obtain ⟨days, hdays, -, hmem⟩ := exists_days h
  rw [← hmem]
  constructor
  · rintro ⟨days', hdays', hin⟩
    rw [hdays] at hdays'
    cases hdays'
    exact hin
  · intro hin
    exact ⟨days, hdays, hin⟩

/-- The days of a month are the dates with its year and its number. -/
theorem number_mem_month_iff {year month : Int} {date : Date}
    (hyear : Date.supportsYear year = true) (hmonth : 1 ≤ month ∧ month ≤ 12) :
    date.year = year ∧ date.month = month ↔
      (Period.month year month).firstNumber ≤ date.number ∧
        date.number ≤ (Period.month year month).lastNumber := by
  have hfields := date.fields_valid
  have hnumber := date.dayNumber_fields
  unfold Gregorian.dayNumber at hnumber
  simp only [firstNumber, lastNumber, Gregorian.dayNumber]
  constructor
  · rintro ⟨rfl, rfl⟩
    omega
  · intro h
    -- The place of the date in the month is a day of the month, and it names this date.
    obtain ⟨named, hnamed, hsame⟩ := Date.exists_ofFields? hyear hmonth
      (show 1 ≤ date.number - Gregorian.dayNumber year month 1 + 1 ∧
          date.number - Gregorian.dayNumber year month 1 + 1 ≤ Gregorian.monthLength year month by
        unfold Gregorian.dayNumber
        omega)
    have heq : named = date := by
      refine Date.ext_number ?_
      rw [hsame, Gregorian.dayNumber, Gregorian.dayNumber]
      omega
    rw [heq] at hnamed
    have := Date.fields_of_ofFields? hnamed
    exact ⟨this.1, this.2.1⟩

/-! ## Moments -/

/-- A date-time lies in a period: on one of its days, and as the clock parts it fixes say. -/
structure Contains (period : Period) (t : DateTime) : Prop where
  day : ∃ days, period.days = .ok days ∧ t.date ∈ days
  hour : ∀ hour, period.pinnedHour? = some hour → t.hour = hour
  minute : ∀ minute, period.pinnedMinute? = some minute → t.minute = minute
  second : ∀ second, period.pinnedSecond? = some second → t.secondOfMinute = second

/-- The second with which a period begins. -/
def opens : Period → Int
  | hour start | minute start | second start => start.second
  | period => period.firstNumber * 86400

/-- The second before which a period ends. -/
def closes : Period → Int
  | hour start => start.second + 3600
  | minute start => start.second + 60
  | second start => start.second + 1
  | period => (period.lastNumber + 1) * 86400

theorem opens_lt_closes {period : Period} (h : period.Valid) : period.opens < period.closes := by
  have hle := firstNumber_le_lastNumber h
  cases period with
  | year y | month y m | week date | day date =>
      simp only [opens, closes]
      omega
  | hour start | minute start | second start =>
      simp only [opens, closes]
      omega

theorem exists_start {period : Period} (h : period.Valid) :
    ∃ start, period.start = .ok start ∧ start.second = period.opens ∧
      (period.Aligned → start.nano = 0) := by
  obtain ⟨first, hfirst, hnumber⟩ := exists_firstDay h
  cases period with
  | year y | month y m | week date | day date =>
      refine ⟨DateTime.ofDate first, ?_, ?_, fun _ => rfl⟩
      · simp only [start, hfirst, bind, Except.bind]
        rfl
      · simp only [opens, DateTime.ofDate, hnumber]
  | hour start | minute start => exact ⟨start, rfl, rfl, fun haligned => haligned.2⟩
  | second start => exact ⟨start, rfl, rfl, fun haligned => haligned⟩

/-- To lie in a period is to lie between its ends. -/
theorem contains_iff {period : Period} (h : period.Aligned) {t : DateTime} :
    period.Contains t ↔ period.opens ≤ t.second ∧ t.second < period.closes := by
  have hday := mem_days_iff h.valid t.date
  rw [t.number_date] at hday
  have hparts : period.Contains t ↔ (∃ days, period.days = .ok days ∧ t.date ∈ days) ∧
      (∀ hour, period.pinnedHour? = some hour → t.hour = hour) ∧
      (∀ minute, period.pinnedMinute? = some minute → t.minute = minute) ∧
      (∀ second, period.pinnedSecond? = some second → t.secondOfMinute = second) :=
    ⟨fun ⟨hd, hh, hm, hs⟩ => ⟨hd, hh, hm, hs⟩, fun ⟨hd, hh, hm, hs⟩ => ⟨hd, hh, hm, hs⟩⟩
  rw [hparts, hday]
  cases period with
  | year y | month y m | week date | day date =>
      simp only [pinnedHour?, pinnedMinute?, pinnedSecond?, opens, closes, reduceCtorEq,
        false_implies, implies_true, and_true]
      omega
  | hour start =>
      have haligned := h.1
      simp only [pinnedHour?, pinnedMinute?, pinnedSecond?, opens, closes, firstNumber,
        lastNumber, DateTime.number_date, DateTime.hour, Option.some_inj, forall_eq',
        reduceCtorEq, false_implies, implies_true, and_true]
      omega
  | minute start =>
      have haligned := h.1
      simp only [pinnedHour?, pinnedMinute?, pinnedSecond?, opens, closes, firstNumber,
        lastNumber, DateTime.number_date, DateTime.hour, DateTime.minute, Option.some_inj,
        forall_eq', reduceCtorEq, false_implies, implies_true, and_true]
      omega
  | second start =>
      simp only [pinnedHour?, pinnedMinute?, pinnedSecond?, opens, closes, firstNumber,
        lastNumber, DateTime.number_date, DateTime.hour, DateTime.minute,
        DateTime.secondOfMinute, Option.some_inj, forall_eq']
      omega

/-! ## Steps -/

theorem aligned_containing (frequency : Frequency) (t : DateTime) (weekStart : Weekday) :
    (containing frequency t weekStart).Aligned := by
  cases frequency with
  | secondly => rfl
  | minutely =>
      refine ⟨?_, rfl⟩
      show t.second / 60 * 60 % 60 = 0
      omega
  | hourly =>
      refine ⟨?_, rfl⟩
      show t.second / 3600 * 3600 % 3600 = 0
      omega
  | daily | weekly => trivial
  | monthly =>
      have hvalid := t.date.fields_valid
      exact ⟨t.date.supportsYear_year, hvalid.1, hvalid.2.1⟩
  | yearly => exact t.date.supportsYear_year

theorem aligned_of_advance {period later : Period} {steps : Nat} (h : period.Aligned)
    (hadvance : period.advance steps = some later) : later.Aligned := by
  cases period with
  | year y =>
      simp only [advance] at hadvance
      split at hadvance
      next hsupports =>
        cases hadvance
        exact hsupports
      · cases hadvance
  | month y m =>
      simp only [advance] at hadvance
      split at hadvance
      next hsupports =>
        cases hadvance
        exact ⟨hsupports, by omega, by omega⟩
      · cases hadvance
  | week first | day first =>
      obtain ⟨date, -, rfl⟩ := Option.map_eq_some_iff.1 hadvance
      trivial
  | hour start | minute start =>
      obtain ⟨t, ht, rfl⟩ := Option.map_eq_some_iff.1 hadvance
      have hsecond := second_of_addSeconds? ht
      have haligned := h.1
      exact ⟨by omega, by rw [nano_of_addSeconds? ht]; exact h.2⟩
  | second start =>
      obtain ⟨t, ht, rfl⟩ := Option.map_eq_some_iff.1 hadvance
      show t.nano = 0
      rw [nano_of_addSeconds? ht]
      exact h

/-- A step of positive length leaves the whole period behind. -/
theorem closes_le_opens_of_advance {period later : Period} {steps : Nat} (h : period.Aligned)
    (hpos : 0 < steps) (hadvance : period.advance steps = some later) :
    period.closes ≤ later.opens := by
  cases period with
  | year y =>
      simp only [advance] at hadvance
      split at hadvance
      next =>
        cases hadvance
        have := Gregorian.daysBeforeYear_le (show y + 1 ≤ y + steps by omega)
        simp only [closes, opens, lastNumber, firstNumber]
        omega
      · cases hadvance
  | month y m =>
      have hmonth := h.2
      simp only [advance] at hadvance
      split at hadvance
      next =>
        cases hadvance
        have hle := Gregorian.monthStart_le
          (show monthIndex y m + 1 ≤ monthIndex y m + steps by omega)
        rw [Gregorian.monthStart_succ, Gregorian.monthStart_monthIndex hmonth] at hle
        rw [show monthIndex y m / 12 = y by unfold monthIndex; omega,
          show monthIndex y m % 12 + 1 = m by unfold monthIndex; omega] at hle
        simp only [closes, opens, lastNumber, firstNumber]
        unfold Gregorian.monthStart at hle
        omega
      · cases hadvance
  | week first | day first =>
      obtain ⟨date, hdate, rfl⟩ := Option.map_eq_some_iff.1 hadvance
      have hnumber := number_of_addDays? hdate
      simp only [closes, opens, lastNumber, firstNumber]
      omega
  | hour start | minute start | second start =>
      obtain ⟨t, ht, rfl⟩ := Option.map_eq_some_iff.1 hadvance
      have hsecond := second_of_addSeconds? ht
      simp only [closes, opens]
      omega

end Period

end Recurrence
