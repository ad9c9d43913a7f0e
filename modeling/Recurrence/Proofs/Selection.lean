import Recurrence.Proofs.Build
import Recurrence.Proofs.Period

/-!
# Which days a rule selects

`MatchesDay` is what a rule says about days, without any of the order in which
the stages of the expansion run: one condition for each list that is not empty,
and the three in which the anchor stands in for a rule that says nothing about
days. A numbered weekday is placed by enumeration, `IsNth`, among the days of
its scope.

Each stage of `Rule.selectDays` keeps the days that meet its own condition, and
`selectDays_spec` puts the stages together: for a built rule and a period that
the calendar has, no stage faults, the days that are left ascend, and they are
those of the period that match.
-/

namespace Recurrence

/-- A date is the one with a place, counted from either end, among the dates with a property. -/
def Date.IsNth (p : Date → Prop) (place : Int) (date : Date) : Prop :=
  ∃ dates : List Date, dates.Pairwise (· < ·) ∧ (∀ d, d ∈ dates ↔ p d) ∧
    Calendar.nthOf dates place = some date

/-- To have a place among dates is to have it in any list of them that ascends. -/
theorem Date.isNth_iff {p : Date → Prop} {place : Int} {date : Date} {dates : List Date}
    (hascending : dates.Pairwise (· < ·)) (hmem : ∀ d, d ∈ dates ↔ p d) :
    date.IsNth p place ↔ Calendar.nthOf dates place = some date := by
  constructor
  · rintro ⟨others, hothers, hmem', hnth⟩
    rwa [hascending.eq_of_mem_iff hothers fun d => (hmem d).trans (hmem' d).symm]
  · intro hnth
    exact ⟨dates, hascending, hmem, hnth⟩

namespace Rule

/-- The rule does not say on which days it recurs. -/
def NoDayRules (rule : Rule) : Prop :=
  rule.weekNumbers = [] ∧ rule.yearDays = [] ∧ rule.monthDays = [] ∧ rule.weekdays = []

/-- The days among which the numbered weekdays around a day count: those of its month for a
yearly rule that names months, else those of the period. -/
def InScope (rule : Rule) (period : Period) (day other : Date) : Prop :=
  if rule.frequency = .yearly ∧ rule.months ≠ [] then
    other.year = day.year ∧ other.month = day.month
  else
    ∃ days, period.days = .ok days ∧ other ∈ days

/-- An entry of the weekdays selects a day. -/
def EntryMatches (rule : Rule) (period : Period) (entry : WeekdayEntry) (day : Date) : Prop :=
  day.weekday = entry.weekday ∧ ∀ ordinal, entry.ordinal = some ordinal →
    day.IsNth (fun other => rule.InScope period day other ∧ other.weekday = entry.weekday)
      ordinal.toInt

/-- What a rule says about the days on which it recurs. -/
structure MatchesDay (rule : Rule) (period : Period) (day : Date) : Prop where
  month : rule.months ≠ [] → day.month ∈ rule.months.map Int8.toInt
  anchorMonth : rule.months = [] → rule.frequency = .yearly → rule.NoDayRules →
    day.month = rule.anchor.date.month
  week : rule.weekNumbers ≠ [] → ∃ index ∈ rule.weekNumbers.map Int8.toInt,
    Calendar.Names index (IsoWeek.ofDate day).week (IsoWeek.weeksInYear (IsoWeek.ofDate day).year)
  yearDay : rule.yearDays ≠ [] → ∃ index ∈ rule.yearDays.map Int16.toInt,
    Calendar.Names index (day.yearIndex + 1) (Gregorian.yearLength day.year)
  monthDay : rule.monthDays ≠ [] → ∃ index ∈ rule.monthDays.map Int8.toInt,
    Calendar.Names index day.day (Gregorian.monthLength day.year day.month)
  anchorDay : rule.frequency = .yearly ∨ rule.frequency = .monthly → rule.NoDayRules →
    day.day = rule.anchor.date.day
  weekday : rule.weekdays ≠ [] → ∃ entry ∈ rule.weekdays, rule.EntryMatches period entry day
  anchorWeekday : rule.frequency = .weekly → rule.NoDayRules →
    day.weekday = rule.anchor.date.weekday

theorem hasDayRules_eq_false_iff {rule : Rule} : rule.hasDayRules = false ↔ rule.NoDayRules := by
  simp only [hasDayRules, NoDayRules, Bool.not_eq_false', Bool.and_eq_true, List.isEmpty_iff,
    and_assoc]

/-! ## The stages -/

theorem keepsMonth_iff {rule : Rule} (hrule : rule.Valid) {day : Date} :
    rule.keepsMonth day = true ↔
      (rule.months ≠ [] → day.month ∈ rule.months.map Int8.toInt) ∧
        (rule.months = [] → rule.frequency = .yearly → rule.NoDayRules →
          day.month = rule.anchor.date.month) := by
  unfold keepsMonth
  by_cases hmonths : rule.months = []
  · by_cases hopen : rule.frequency = .yearly ∧ rule.NoDayRules
    · have hrules := hasDayRules_eq_false_iff.2 hopen.2
      simp [hmonths, hopen.1, hopen.2, hrules]
    · rw [← hasDayRules_eq_false_iff] at hopen ⊢
      simp only [hmonths, List.isEmpty_nil, Bool.not_true, Bool.false_eq_true, if_false, ne_eq,
        not_true_eq_false, false_implies, true_and, forall_const]
      rw [if_neg (by simpa using hopen)]
      exact iff_of_true rfl fun hyearly hrules => absurd ⟨hyearly, hrules⟩ hopen
  · simp [hmonths, holds_iff hrule.months.1]

theorem keepsWeek_decides {rule : Rule} (hrule : rule.Valid) (day : Date) :
    Decides (rule.keepsWeek day)
      (rule.weekNumbers ≠ [] → ∃ index ∈ rule.weekNumbers.map Int8.toInt,
        Calendar.Names index (IsoWeek.ofDate day).week
          (IsoWeek.weeksInYear (IsoWeek.ofDate day).year)) := by
  refine Decides.unless_isEmpty ?_
  simp only [Calendar.isoWeeksInYear_eq (Calendar.supportsYear_ofDate day), ok_bind]
  refine Decides.of_bool ?_
  simp only [Bool.or_eq_true, holds_iff hrule.weekNumbers.1, Calendar.Names, List.mem_map,
    exists_exists_and_eq_and, and_or_left, exists_or]

theorem keepsYearDay_decides (rule : Rule) (day : Date) :
    Decides (rule.keepsYearDay day)
      (rule.yearDays ≠ [] → ∃ index ∈ rule.yearDays.map Int16.toInt,
        Calendar.Names index (day.yearIndex + 1) (Gregorian.yearLength day.year)) := by
  refine Decides.unless_isEmpty ?_
  have htest : ∀ index ∈ rule.yearDays, Decides
      (do
        let found ← Calendar.resolveYearDay day.year index.toInt
        return found == some day)
      (Calendar.Names index.toInt (day.yearIndex + 1) (Gregorian.yearLength day.year)) := by
    intro index _
    obtain ⟨found, hfound, hnames⟩ :=
      Calendar.resolveYearDay_spec index.toInt day.supportsYear_year
    rw [hfound, ok_bind]
    refine Decides.of_bool ?_
    rw [beq_iff_eq, hnames, and_iff_right rfl]
  refine (anyM_decides htest).of_iff ?_
  simp only [List.mem_map, exists_exists_and_eq_and]

theorem keepsMonthDay_decides (rule : Rule) (day : Date) :
    Decides (rule.keepsMonthDay day)
      (rule.monthDays ≠ [] → ∃ index ∈ rule.monthDays.map Int8.toInt,
        Calendar.Names index day.day (Gregorian.monthLength day.year day.month)) := by
  refine Decides.unless_isEmpty ?_
  obtain ⟨hmonth, hmonth', hday⟩ := day.fields_valid
  have htest : ∀ index ∈ rule.monthDays, Decides
      (do
        let found ← Calendar.resolveMonthDay day.year day.month index.toInt
        return found == some day.day)
      (Calendar.Names index.toInt day.day (Gregorian.monthLength day.year day.month)) := by
    intro index _
    rw [Calendar.resolveMonthDay_eq index.toInt day.supportsYear_year ⟨hmonth, hmonth'⟩, ok_bind]
    refine Decides.of_bool ?_
    rw [beq_iff_eq, Calendar.resolveIndex_eq_some_iff, and_iff_right hday]
  refine (anyM_decides htest).of_iff ?_
  simp only [List.mem_map, exists_exists_and_eq_and]

theorem keepsAnchorDay_iff {rule : Rule} {day : Date} :
    rule.keepsAnchorDay day = true ↔
      (rule.frequency = .yearly ∨ rule.frequency = .monthly → rule.NoDayRules →
        day.day = rule.anchor.date.day) := by
  unfold keepsAnchorDay
  rw [← hasDayRules_eq_false_iff]
  by_cases hopen : (rule.frequency = .yearly ∨ rule.frequency = .monthly) ∧
      rule.hasDayRules = false
  · rw [if_pos (by simpa using hopen), beq_iff_eq]
    exact ⟨fun h _ _ => h, fun h => h hopen.1 hopen.2⟩
  · rw [if_neg (by simpa using hopen)]
    exact iff_of_true rfl fun hfrequency hrules => absurd ⟨hfrequency, hrules⟩ hopen

/-- The scope of the numbered weekdays around a day is a stretch of days of the calendar. -/
theorem exists_scope (rule : Rule) {period : Period} (hperiod : period.Valid) (day : Date) :
    ∃ first last, (rule.weekdayScope period day).firstDay = .ok first ∧
      (rule.weekdayScope period day).lastDay = .ok last ∧ first ≤ last ∧
      ∀ other, rule.InScope period day other ↔ first ≤ other ∧ other ≤ last := by
  have hmonth := day.fields_valid
  have hvalid : (rule.weekdayScope period day).Valid := by
    unfold weekdayScope
    split
    · exact ⟨day.supportsYear_year, hmonth.1, hmonth.2.1⟩
    · exact hperiod
  obtain ⟨first, hfirst, hfirstNumber⟩ := Period.exists_firstDay hvalid
  obtain ⟨last, hlast, hlastNumber⟩ := Period.exists_lastDay hvalid
  have hle := Period.firstNumber_le_lastNumber hvalid
  refine ⟨first, last, hfirst, hlast, by rw [Date.le_iff]; omega, fun other => ?_⟩
  rw [Date.le_iff, Date.le_iff, hfirstNumber, hlastNumber]
  unfold InScope weekdayScope
  by_cases hmonthly : rule.frequency = .yearly ∧ rule.months ≠ []
  · rw [if_pos hmonthly, if_pos (by simpa using hmonthly),
      Period.number_mem_month_iff day.supportsYear_year ⟨hmonth.1, hmonth.2.1⟩]
  · rw [if_neg hmonthly, if_neg (by simpa using hmonthly)]
    exact Period.mem_days_iff hperiod other

/-- An entry tests whether it selects a day by finding the day with its ordinal in the scope. -/
theorem selects_decides {rule : Rule} {period : Period} {entry : WeekdayEntry}
    {day first last : Date} (hentry : entry.Proper) (hle : first ≤ last)
    (hscope : ∀ other, rule.InScope period day other ↔ first ≤ other ∧ other ≤ last) :
    Decides (entry.selects first last day) (rule.EntryMatches period entry day) := by
  unfold WeekdayEntry.selects EntryMatches
  by_cases hweekday : day.weekday = entry.weekday
  · rw [if_pos hweekday, and_iff_right hweekday]
    cases hordinal : entry.ordinal with
    | none => exact Decides.of_bool (iff_of_true rfl fun ordinal h => by cases h)
    | some ordinal =>
        have hne := (hentry ordinal hordinal).1
        simp only [Calendar.nthWeekday_eq hle entry.weekday hne, ok_bind]
        refine Decides.of_bool ?_
        rw [beq_iff_eq]
        simp only [Option.some_inj, forall_eq']
        refine (Date.isNth_iff (Calendar.pairwise_weekdaysOf first last entry.weekday)
          fun other => ?_).symm
        rw [Calendar.mem_weekdaysOf, hscope]
  · rw [if_neg hweekday]
    exact Decides.of_bool (iff_of_false Bool.false_ne_true fun h => hweekday h.1)

theorem keepsWeekday_decides {rule : Rule} (hrule : rule.Valid) {period : Period}
    (hperiod : period.Valid) (day : Date) :
    Decides (rule.keepsWeekday period day)
      ((rule.weekdays ≠ [] → ∃ entry ∈ rule.weekdays, rule.EntryMatches period entry day) ∧
        (rule.frequency = .weekly → rule.NoDayRules →
          day.weekday = rule.anchor.date.weekday)) := by
  unfold keepsWeekday
  by_cases hempty : rule.weekdays = []
  · rw [if_pos (by rw [hempty]; rfl), and_iff_right fun h => absurd hempty h]
    by_cases hopen : rule.frequency = .weekly ∧ rule.hasDayRules = false
    · rw [if_pos (by simpa using hopen)]
      refine Decides.of_bool ?_
      rw [beq_iff_eq, ← hasDayRules_eq_false_iff]
      exact ⟨fun h _ _ => h, fun h => h hopen.1 hopen.2⟩
    · rw [if_neg (by simpa using hopen)]
      rw [← hasDayRules_eq_false_iff]
      exact Decides.of_bool
        (iff_of_true rfl fun hweekly hrules => absurd ⟨hweekly, hrules⟩ hopen)
  · rw [if_neg (by simpa using hempty), and_iff_left fun _ h => absurd h.2.2.2 hempty]
    obtain ⟨first, last, hfirst, hlast, hle, hscope⟩ := rule.exists_scope hperiod day
    simp only [hfirst, hlast, ok_bind]
    refine (anyM_decides fun entry hentry =>
      selects_decides (hrule.ordinals entry hentry) hle hscope).of_iff ?_
    exact ⟨fun h _ => h, fun h => h hempty⟩

/-! ## All stages together -/

theorem selectDays_spec {rule : Rule} (hrule : rule.Valid) {period : Period}
    (hperiod : period.Valid) :
    ∃ days, rule.selectDays period = .ok days ∧ days.Pairwise (· < ·) ∧ ∀ day, day ∈ days ↔
      (period.firstNumber ≤ day.number ∧ day.number ≤ period.lastNumber) ∧
        rule.MatchesDay period day := by
  obtain ⟨all, hall, hascending, hmem⟩ := Period.exists_days hperiod
  obtain ⟨byWeek, hbyWeek, hsubWeek, hmemWeek⟩ := keepWhere_decides
    (all.filter rule.keepsMonth) fun day _ => keepsWeek_decides hrule day
  obtain ⟨byYear, hbyYear, hsubYear, hmemYear⟩ := keepWhere_decides
    byWeek fun day _ => rule.keepsYearDay_decides day
  obtain ⟨byMonth, hbyMonth, hsubMonth, hmemMonth⟩ := keepWhere_decides
    byYear fun day _ => rule.keepsMonthDay_decides day
  obtain ⟨kept, hkept, hsub, hmemKept⟩ := keepWhere_decides
    (byMonth.filter rule.keepsAnchorDay) fun day _ =>
      keepsWeekday_decides hrule hperiod day
  refine ⟨kept, ?_, ?_, fun day => ?_⟩
  · unfold selectDays
    simp only [hall, hbyWeek, hbyYear, hbyMonth, hkept, ok_bind]
  · have hsubAll : kept.Sublist all :=
      hsub.trans (List.filter_sublist.trans
        (hsubMonth.trans (hsubYear.trans (hsubWeek.trans List.filter_sublist))))
    exact hascending.sublist hsubAll
  · rw [hmemKept, List.mem_filter, hmemMonth, hmemYear, hmemWeek, List.mem_filter, hmem,
      keepsMonth_iff hrule, keepsAnchorDay_iff]
    constructor
    · rintro ⟨⟨⟨⟨⟨⟨hin, hmonth, hanchorMonth⟩, hweek⟩, hyearDay⟩, hmonthDay⟩, hanchorDay⟩,
        hweekday, hanchorWeekday⟩
      exact ⟨hin, hmonth, hanchorMonth, hweek, hyearDay, hmonthDay, hanchorDay, hweekday,
        hanchorWeekday⟩
    · rintro ⟨hin, hmonth, hanchorMonth, hweek, hyearDay, hmonthDay, hanchorDay, hweekday,
        hanchorWeekday⟩
      exact ⟨⟨⟨⟨⟨⟨hin, hmonth, hanchorMonth⟩, hweek⟩, hyearDay⟩, hmonthDay⟩, hanchorDay⟩,
        hweekday, hanchorWeekday⟩

end Rule

end Recurrence
