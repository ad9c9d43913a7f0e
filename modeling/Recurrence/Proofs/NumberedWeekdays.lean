import Recurrence.Proofs.FixedWidth
import Recurrence.Proofs.Selection

/-!
# Numbered weekdays and the weeks of a year

A weekday with an ordinal stands for one day of a range: of the days on that weekday, in
order, the one with that place, counted from the end if the ordinal is negative. The day is
found by a single jump of whole weeks, and `nthWeekday_counts` says that the jump lands where
counting ends, for every ordinal that eight bits can hold and also where it leaves the calendar.

The weeks of a year are its Thursdays, since a week belongs to the year that holds its
Thursday. Numbering weeks is therefore a case of numbering weekdays: the week of a day has the
place that its Thursday has among those of the year, and an index of a rule names the week when
it names that Thursday. That is `weeks_are_thursdays`.
-/

namespace Recurrence

namespace Calendar

/-- The numbered weekday of a range is found by counting the days of the range that fall on the
weekday, from its start or from its end; there is none when there are too few of them. Numbers of
fixed width suffice for the ordinals of eight bits. -/
theorem nthWeekday_counts {start finish : Date} (hle : start ≤ finish) (weekday : Weekday)
    {ordinal : Int8} (hordinal : ordinal ≠ 0) :
    ∃ matching : List Date, matching.Pairwise (· < ·) ∧
      (∀ date, date ∈ matching ↔ (start ≤ date ∧ date ≤ finish) ∧ date.weekday = weekday) ∧
      ∃ found, nthWeekday start finish weekday ordinal.toInt = .ok found ∧
        FixedWidth.nthWeekday start finish weekday ordinal.toInt = .ok found ∧
        (0 < ordinal.toInt → found = matching[ordinal.toInt.natAbs - 1]?) ∧
        (ordinal.toInt < 0 → found = matching.reverse[ordinal.toInt.natAbs - 1]?) ∧
        (found = none ↔ matching.length < ordinal.toInt.natAbs) := by
  have hne : ordinal.toInt ≠ 0 := fun h => hordinal (Int8.toInt_inj.1 h)
  have hbounds : -128 ≤ ordinal.toInt ∧ ordinal.toInt ≤ 127 := by
    have hlow := ordinal.le_toInt
    have hhigh := ordinal.toInt_lt
    omega
  have hfound := nthWeekday_eq hle weekday hne
  refine ⟨weekdaysOf start finish weekday, pairwise_weekdaysOf start finish weekday,
    fun date => mem_weekdaysOf, _, hfound, ?_, ?_, ?_, nthOf_eq_none_iff hne⟩
  · exact FixedWidth.follows_nthWeekday start finish weekday hbounds _ hfound
  · exact nthOf_of_pos
  · exact nthOf_of_neg

/-- The days of the first month that the calendar has. -/
def firstMonth : Date × Date :=
  (Date.min, (Date.ofFields? (-9999) 1 31).getD .max)

/-- Counted from the end of that month, the 128th Tuesday would be years before the calendar. -/
theorem nthWeekday_counts_firstMonth :
    firstMonth.1 ≤ firstMonth.2 ∧ (-128 : Int8) ≠ 0 ∧
      ∃ matching : List Date, matching.Pairwise (· < ·) ∧
        (∀ date, date ∈ matching ↔
          (firstMonth.1 ≤ date ∧ date ≤ firstMonth.2) ∧ date.weekday = .tuesday) ∧
        nthWeekday firstMonth.1 firstMonth.2 .tuesday (-128) = .ok none ∧
        FixedWidth.nthWeekday firstMonth.1 firstMonth.2 .tuesday (-128) = .ok none ∧
        matching.length < 128 := by
  have hle : firstMonth.1 ≤ firstMonth.2 := by decide
  have hne : (-128 : Int8) ≠ 0 := by decide
  obtain ⟨matching, hascending, hmem, found, hfound, hfixed, -, -, hnone⟩ :=
    nthWeekday_counts hle .tuesday hne
  have hcalendar : nthWeekday firstMonth.1 firstMonth.2 .tuesday (-128) = .ok none := by
    decide
  cases hfound.symm.trans hcalendar
  exact ⟨hle, hne, matching, hascending, hmem, hfound, hfixed, hnone.1 rfl⟩

end Calendar

/-! ## Weeks -/

/-- Two dates lie in the same week, counted from its Monday. -/
def Date.SameWeek (a b : Date) : Prop :=
  a.number - a.weekday.offset = b.number - b.weekday.offset

/-- The dates of a year are those from its first of January to its last of December. -/
theorem Date.exists_yearEnds {year : Int} (hyear : supportsYear year = true) :
    ∃ first last, ofFields? year 1 1 = some first ∧ ofFields? year 12 31 = some last ∧
      first.number = Gregorian.daysBeforeYear year ∧
      last.number = Gregorian.daysBeforeYear (year + 1) - 1 ∧
      ∀ date, first ≤ date ∧ date ≤ last ↔ date.year = year := by
  have hvalid : (Period.year year).Valid := hyear
  obtain ⟨first, hfirst, hfirstNumber⟩ := Period.exists_firstDay hvalid
  obtain ⟨last, hlast, hlastNumber⟩ := Period.exists_lastDay hvalid
  refine ⟨first, last, Period.ofFields?_of_dateOf hfirst, Period.ofFields?_of_dateOf hlast,
    hfirstNumber, hlastNumber, fun date => ?_⟩
  rw [Date.year, Gregorian.yearOf_eq_iff, Date.le_iff, Date.le_iff, hfirstNumber, hlastNumber]
  simp only [Period.firstNumber, Period.lastNumber]
  omega

namespace IsoWeek

theorem offset_thursday : Weekday.thursday.offset = 3 :=
  rfl

/-- The week of a date has one Thursday, and the calendar has it. -/
theorem exists_thursday (day : Date) :
    ∃ thursday : Date, thursday.number = thursdayNumber day ∧
      ∀ other : Date, other.weekday = .thursday ∧ other.SameWeek day ↔ other = thursday := by
  have hfirst := day.first_le
  have hlast := day.le_last
  have hoffset := day.offset_weekday
  -- The calendar begins on a Monday and ends on a Friday: no week of it lacks its Thursday.
  obtain ⟨thursday, hnumber⟩ : ∃ thursday : Date, thursday.number = thursdayNumber day :=
    ⟨⟨thursdayNumber day, by unfold thursdayNumber; omega, by unfold thursdayNumber; omega⟩, rfl⟩
  refine ⟨thursday, hnumber, fun other => ?_⟩
  unfold thursdayNumber at hnumber
  unfold Date.SameWeek
  constructor
  · rintro ⟨hweekday, hweek⟩
    rw [hweekday, offset_thursday] at hweek
    exact Date.ext_number (by omega)
  · rintro rfl
    have hother := other.offset_weekday
    have hthursday : other.weekday.offset = Weekday.thursday.offset := by
      rw [offset_thursday]
      omega
    refine ⟨?_, by omega⟩
    rw [← other.weekday.ofOffset_offset, hthursday, Weekday.ofOffset_offset]

/-- The Thursday of the week of a day, and the first and the last date of its year. -/
structure Located (day thursday first last : Date) : Prop where
  number : thursday.number = thursdayNumber day
  weekday : thursday.weekday = .thursday
  first : first.number = Gregorian.daysBeforeYear thursday.year
  last : last.number = Gregorian.daysBeforeYear (thursday.year + 1) - 1

namespace Located

variable {day thursday first last : Date}

theorem first_le_last (h : Located day thursday first last) : first ≤ last := by
  have hyear := Gregorian.daysBeforeYear_lt (Int.lt_succ thursday.year)
  have hfirst := h.first
  have hlast := h.last
  rw [Date.le_iff]
  omega

theorem ofDate_eq (h : Located day thursday first last) :
    ofDate day = ⟨thursday.yearIndex / 7 + 1, thursday.year⟩ := by
  have hyear : Gregorian.yearOf (thursdayNumber day) = thursday.year := by
    rw [Date.year, h.number]
  have hnumber := h.number
  have hindex := thursday.number_eq
  unfold ofDate
  simp only [hyear, mk.injEq, and_true]
  omega

/-- The weeks of a year are as many as its Thursdays. -/
theorem weeksInYear_eq (h : Located day thursday first last) :
    weeksInYear thursday.year = (Calendar.weekdaysOf first last .thursday).length := by
  have hlength := Gregorian.yearLength_bounds thursday.year
  have hoffset := first.offset_weekday
  have hfirst := h.first
  have hlast := h.last
  rw [Gregorian.daysBeforeYear_succ] at hlast
  rw [Calendar.length_weekdaysOf]
  unfold weeksInYear Calendar.weekdayCount Calendar.firstNumber Weekday.daysAfter
  rw [offset_thursday]
  dsimp only
  omega

/-- As many Thursdays of the year come before the one of a week as whole weeks do. -/
theorem getElem?_thursdays (h : Located day thursday first last) :
    (Calendar.weekdaysOf first last .thursday)[(thursday.yearIndex / 7).toNat]? =
      some thursday := by
  have hindex := thursday.number_eq
  have hnonneg := thursday.yearIndex_nonneg
  have hlt := thursday.yearIndex_lt
  have hoffset := thursday.offset_weekday
  have hfirstOffset := first.offset_weekday
  have hfirst := h.first
  have hlast := h.last
  rw [Gregorian.daysBeforeYear_succ] at hlast
  rw [h.weekday, offset_thursday] at hoffset
  -- The Thursdays go by sevens from the first one on, which is among the first seven days.
  rw [Calendar.getElem?_weekdaysOf]
  unfold Calendar.weekdayCount Calendar.firstNumber Weekday.daysAfter
  rw [offset_thursday]
  omega

/-- An index names the week when the weekday numbered by it is the Thursday. -/
theorem names_iff (h : Located day thursday first last) {index : Int} (hne : index ≠ 0) :
    Calendar.Names index (ofDate day).week (weeksInYear (ofDate day).year) ↔
      Calendar.nthWeekday first last .thursday index = .ok (some thursday) := by
  have hnodup := (Calendar.pairwise_weekdaysOf first last .thursday).nodup
  have hnonneg := thursday.yearIndex_nonneg
  rw [Calendar.nthWeekday_eq h.first_le_last .thursday hne, Except.ok.injEq,
    Calendar.nthOf_eq_some_iff hnodup h.getElem?_thursdays, Int.toNat_of_nonneg (by omega),
    h.ofDate_eq, h.weeksInYear_eq]

end Located

end IsoWeek

namespace Rule

/-- A built rule that names weeks keeps the days of a week when one of its indices numbers the
Thursday of the week. -/
theorem keepsWeek_decides_thursday {rule : Rule} (hrule : rule.Valid)
    (hweeks : rule.weekNumbers ≠ []) {day thursday first last : Date}
    (h : IsoWeek.Located day thursday first last) :
    Decides (rule.keepsWeek day) (∃ index ∈ rule.weekNumbers,
      Calendar.nthWeekday first last .thursday index.toInt = .ok (some thursday)) := by
  have hnames : ∀ index ∈ rule.weekNumbers,
      (Calendar.Names index.toInt (IsoWeek.ofDate day).week
        (IsoWeek.weeksInYear (IsoWeek.ofDate day).year) ↔
      Calendar.nthWeekday first last .thursday index.toInt = .ok (some thursday)) := by
    intro index hindex
    have haccepts := hrule.weekNumbers.2 index hindex
    simp only [Field.accepts, Field.isIndex, Bool.and_eq_true, decide_eq_true_eq] at haccepts
    exact h.names_iff haccepts.1.1
  refine (keepsWeek_decides hrule day).of_iff ?_
  simp only [List.mem_map, exists_exists_and_eq_and]
  constructor
  · intro hkept
    obtain ⟨index, hindex, hname⟩ := hkept hweeks
    exact ⟨index, hindex, (hnames index hindex).1 hname⟩
  · rintro ⟨index, hindex, hfound⟩ _
    exact ⟨index, hindex, (hnames index hindex).2 hfound⟩

/-- Every day has one Thursday in its week. Its week belongs to the year of that Thursday and has
the Thursday's place among those of the year, of which there are as many as the year has weeks; and
a rule that names weeks keeps the day when one of its indices, from either end, is that place. -/
theorem weeks_are_thursdays (day : Date) :
    ∃ (thursday first last : Date) (thursdays : List Date),
      (∀ other : Date, other.weekday = .thursday ∧ other.SameWeek day ↔ other = thursday) ∧
      Date.ofFields? thursday.year 1 1 = some first ∧
      Date.ofFields? thursday.year 12 31 = some last ∧
      thursdays.Pairwise (· < ·) ∧
      (∀ date, date ∈ thursdays ↔ date.year = thursday.year ∧ date.weekday = .thursday) ∧
      (∃ before : Nat, thursdays[before]? = some thursday ∧
        IsoWeek.ofDate day = ⟨before + 1, thursday.year⟩) ∧
      Calendar.isoWeeksInYear thursday.year = .ok thursdays.length ∧
      (1 ≤ (IsoWeek.ofDate day).week ∧ (IsoWeek.ofDate day).week ≤ thursdays.length) ∧
      ∀ (draft : Draft) (rule : Rule), draft.build = .ok rule → rule.weekNumbers ≠ [] →
        ∃ kept, rule.keepsWeek day = .ok kept ∧ (kept = true ↔ ∃ index ∈ rule.weekNumbers,
          Calendar.nthWeekday first last .thursday index.toInt = .ok (some thursday)) := by
  obtain ⟨thursday, hthursday, hunique⟩ := IsoWeek.exists_thursday day
  obtain ⟨first, last, hfirst, hlast, hfirstNumber, hlastNumber, hyear⟩ :=
    Date.exists_yearEnds thursday.supportsYear_year
  have hlocated : IsoWeek.Located day thursday first last :=
    ⟨hthursday, ((hunique thursday).2 rfl).1, hfirstNumber, hlastNumber⟩
  have hplace := hlocated.getElem?_thursdays
  have hbefore := (List.getElem?_eq_some_iff.1 hplace).1
  have hnonneg := thursday.yearIndex_nonneg
  refine ⟨thursday, first, last, Calendar.weekdaysOf first last .thursday, hunique, hfirst, hlast,
    Calendar.pairwise_weekdaysOf first last .thursday, fun date => ?_, ⟨_, hplace, ?_⟩, ?_, ?_,
    fun draft rule hbuild hweeks => ?_⟩
  · rw [Calendar.mem_weekdaysOf, hyear]
  · rw [hlocated.ofDate_eq, Int.toNat_of_nonneg (by omega)]
  · rw [Calendar.isoWeeksInYear_eq thursday.supportsYear_year, hlocated.weeksInYear_eq]
  · simp only [hlocated.ofDate_eq]
    omega
  · exact keepsWeek_decides_thursday (valid_of_build hbuild) hweeks hlocated

/-- All days of the first and of the last week of each year, from September 1997 on. -/
def turnOfYear : Rule where
  frequency := .yearly
  interval := 1
  interval_pos := Nat.one_pos
  anchor := .ofDate ((Date.ofFields? 1997 9 2).getD .min)
  limit := none
  months := []
  monthDays := []
  yearDays := []
  weekNumbers := [-1, 1]
  weekdays := []
  hours := []
  minutes := []
  seconds := []
  positions := []
  weekStart := .sunday

theorem build_turnOfYear : turnOfYear.draft.build = .ok turnOfYear :=
  rfl

/-- The twenty-ninth of December 1997, a day of the first week of 1998. -/
def lateDecember : Date :=
  (Date.ofFields? 1997 12 29).getD .min

theorem weeks_are_thursdays_turnOfYear :
    turnOfYear.draft.build = .ok turnOfYear ∧ turnOfYear.weekNumbers ≠ [] ∧
      ∃ thursday first last : Date, thursday.weekday = .thursday ∧
        thursday.SameWeek lateDecember ∧ Date.ofFields? thursday.year 1 1 = some first ∧
        Date.ofFields? thursday.year 12 31 = some last ∧
        turnOfYear.keepsWeek lateDecember = .ok true ∧ ∃ index ∈ turnOfYear.weekNumbers,
          Calendar.nthWeekday first last .thursday index.toInt = .ok (some thursday) := by
  have hweeks : turnOfYear.weekNumbers ≠ [] := List.cons_ne_nil _ _
  obtain ⟨thursday, first, last, _, hunique, hfirst, hlast, -, -, -, -, -, hkeeps⟩ :=
    weeks_are_thursdays lateDecember
  obtain ⟨kept, hkept, hindex⟩ := hkeeps _ _ build_turnOfYear hweeks
  have hweek : turnOfYear.keepsWeek lateDecember = .ok true := by decide +kernel
  have hthursday := (hunique thursday).2 rfl
  cases hkept.symm.trans hweek
  exact ⟨build_turnOfYear, hweeks, thursday, first, last, hthursday.1, hthursday.2, hfirst, hlast,
    hweek, hindex.1 rfl⟩

end Rule

end Recurrence
