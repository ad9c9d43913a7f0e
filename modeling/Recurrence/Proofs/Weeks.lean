import Recurrence.Proofs.Grid

/-!
# The weeks of a weekly rule

A weekly rule visits whole weeks, the one of its anchor and then every so many
after it. Which weeks those are is said with `Date.weekIndex`, the number of a week
when weeks are counted without end from some day on which a week begins.

A week is held by its first day, and the first week of a rule may begin before the
calendar does. It is then held by the first day of the calendar instead, and since
every later week is found from the first by adding whole weeks, all of them begin on
the weekday on which the calendar begins. With an interval of one that is not to be
seen, the weeks cover the same days; with a greater one the rule recurs in weeks
that are not those of its first day of the week. `visits_weekly_iff` says both: on
which days the walk comes by, and that these are the days of the right weeks exactly
when the anchor's week lies within the calendar or no week is left out.
-/

namespace Recurrence

/-- The number of the week of a date, weeks being counted from the day with number `origin`. -/
def Date.weekIndex (origin : Int) (date : Date) : Int :=
  (date.number - origin) / 7

namespace Rule

/-- A period that the rule visits has a date among its days. -/
def Visits (rule : Rule) (date : Date) : Prop :=
  ∃ period ∈ (Walk.ofRule rule).periods, ∃ days, period.days = .ok days ∧ date ∈ days

/-- The number of the day with which the week of the anchor begins, be it before the calendar. -/
def weekOpening (rule : Rule) : Int :=
  rule.anchor.date.number - rule.anchor.date.weekday.daysAfter rule.weekStart

variable {rule : Rule}

theorem contains_iff_of_weekly {period : Period} (h : period.frequency = .weekly)
    (t : DateTime) : period.Contains t ↔ ∃ days, period.days = .ok days ∧ t.date ∈ days := by
  cases period with
  | week first =>
      constructor
      · intro hcontains
        exact hcontains.day
      · intro hday
        refine ⟨hday, ?_, ?_, ?_⟩ <;> intro _ hpinned <;> cases hpinned
  | year y | month y m | day date | hour start | minute start | second start => cases h

theorem visits_iff_of_weekly (hweekly : rule.frequency = .weekly) (t : DateTime) :
    rule.Visits t.date ↔ ∃ period ∈ (Walk.ofRule rule).periods, period.Contains t := by
  refine exists_congr fun period => and_congr_right fun hperiod => ?_
  rw [contains_iff_of_weekly ((frequency_of_mem_periods hperiod).trans hweekly)]

/-- The walk comes by in every `interval`-th week, counted from where its first week is held to
begin. -/
theorem visits_iff_dvd (hweekly : rule.frequency = .weekly) {t : DateTime}
    (h : rule.anchor ≤ t) :
    rule.Visits t.date ↔
      (rule.interval.toNat : Int) ∣
        t.date.weekIndex (Max.max rule.weekOpening Date.min.number) := by
  obtain ⟨first, hfirst, hnumber⟩ :=
    Period.exists_containing_weekly rule.anchor rule.weekStart
  have hperiod : rule.firstPeriod = .week first := by
    rw [firstPeriod, hweekly]
    exact hfirst
  have hopens := opens_firstPeriod_le h
  simp only [hperiod, Period.opens, Period.firstNumber] at hopens
  rw [visits_iff_of_weekly hweekly, exists_visited_iff h, hperiod, Period.unitsTo,
    Date.weekIndex, weekOpening, ← hnumber, ← Int.natCast_dvd_natCast,
    Int.toNat_of_nonneg]
  rw [t.number_date]
  omega

/-- Weeks that are counted from any day that begins one differ by weeks from the anchor's. -/
theorem weekIndex_sub {origin : Int} (horigin : Weekday.ofOffset (origin + 5) = rule.weekStart)
    (date : Date) :
    date.weekIndex origin - rule.anchor.date.weekIndex origin =
      date.weekIndex rule.weekOpening := by
  have hanchor := rule.anchor.date.offset_weekday
  have hstart := Weekday.offset_ofOffset (origin + 5)
  rw [horigin] at hstart
  unfold Date.weekIndex weekOpening Weekday.daysAfter
  omega

/-- Where the first week is cut off, the day after its end begins a week of the calendar's first
weekday and not of the rule's. -/
theorem exists_shifted (h : rule.weekOpening < Date.min.number) :
    ∃ t, rule.anchor ≤ t ∧ t.date.weekIndex rule.weekOpening = 1 ∧
      t.date.weekIndex Date.min.number = 0 := by
  have hback := Period.daysAfter_bounds rule.anchor.date.weekday rule.weekStart
  have hfirst := rule.anchor.date.first_le
  simp only [Date.min] at h
  obtain ⟨date, hdate⟩ : ∃ date : Date, date.number = rule.weekOpening + 7 := by
    unfold weekOpening at h ⊢
    exact ⟨⟨_, by omega, by omega⟩, rfl⟩
  have hsame : (DateTime.ofDate date).date = date :=
    Date.ext_number (Int.mul_ediv_cancel _ (by decide))
  refine ⟨.ofDate date, ?_, ?_, ?_⟩
  · have hlt : rule.anchor.date < (DateTime.ofDate date).date := by
      rw [hsame, Date.lt_iff, hdate, weekOpening]
      omega
    exact le_of_lt (DateTime.lt_of_date_lt hlt)
  · rw [hsame, Date.weekIndex, hdate]
    omega
  · rw [hsame, Date.weekIndex, hdate]
    simp only [Date.min, weekOpening] at h ⊢
    omega

/-- The days that a weekly rule visits from its anchor on, and when they are the days of every
`interval`-th week as its first day of the week divides them. -/
theorem visits_weekly_iff (hweekly : rule.frequency = .weekly) {origin : Int}
    (horigin : Weekday.ofOffset (origin + 5) = rule.weekStart) :
    (∀ t, rule.anchor ≤ t → (rule.Visits t.date ↔
      (rule.interval.toNat : Int) ∣
        t.date.weekIndex (Max.max rule.weekOpening Date.min.number))) ∧
    ((∀ t, rule.anchor ≤ t → (rule.Visits t.date ↔
      (rule.interval.toNat : Int) ∣
        t.date.weekIndex origin - rule.anchor.date.weekIndex origin)) ↔
      rule.interval = 1 ∨ Date.min.number ≤ rule.weekOpening) := by
  have hvisits : ∀ t, rule.anchor ≤ t → _ := fun t h => visits_iff_dvd hweekly h
  refine ⟨hvisits, ?_⟩
  simp only [weekIndex_sub horigin]
  constructor
  · intro hgrid
    by_contra hneither
    rw [not_or, not_le] at hneither
    obtain ⟨hinterval, hcut⟩ := hneither
    obtain ⟨t, ht, hone, hzero⟩ := exists_shifted hcut
    have hdvd := (hgrid t ht).1 ((hvisits t ht).2 (by
      rw [max_eq_right hcut.le, hzero]
      exact Int.dvd_zero _))
    rw [hone] at hdvd
    have hunit : rule.interval.toNat = 1 := by
      have := Int.eq_one_of_dvd_one (Int.natCast_nonneg _) hdvd
      omega
    exact hinterval (UInt32.toNat_inj.1 hunit)
  · rintro (hone | hwithin) t ht
    · rw [hvisits t ht, hone]
      exact iff_of_true (Int.one_dvd _) (Int.one_dvd _)
    · rw [hvisits t ht, max_eq_left hwithin]

/-- Every second Sunday, weeks beginning on Sundays, from the first day of the calendar on. -/
def secondSundays : Rule where
  frequency := .weekly
  interval := 2
  interval_pos := by decide
  anchor := .ofDate .min
  limit := none
  months := []
  monthDays := []
  yearDays := []
  weekNumbers := []
  weekdays := [⟨none, .sunday⟩]
  hours := []
  minutes := []
  seconds := []
  positions := []
  weekStart := .sunday

theorem build_secondSundays : secondSundays.draft.build = .ok secondSundays :=
  rfl

theorem visits_weekly_secondSundays :
    secondSundays.frequency = .weekly ∧
      Weekday.ofOffset (1 + 5) = secondSundays.weekStart ∧
      (∀ t, secondSundays.anchor ≤ t → (secondSundays.Visits t.date ↔
        2 ∣ t.date.weekIndex (Max.max secondSundays.weekOpening Date.min.number))) ∧
      ((∀ t, secondSundays.anchor ≤ t → (secondSundays.Visits t.date ↔
        2 ∣ t.date.weekIndex 1 - secondSundays.anchor.date.weekIndex 1)) ↔
        secondSundays.interval = 1 ∨ Date.min.number ≤ secondSundays.weekOpening) :=
  ⟨rfl, rfl, visits_weekly_iff rfl rfl⟩

/-- The first Sunday of the calendar begins the week after the anchor's, and is visited though
every second week is not. -/
theorem secondSundays_visits_next_week :
    secondSundays.draft.build = .ok secondSundays ∧ secondSundays.frequency = .weekly ∧
      Weekday.ofOffset (1 + 5) = secondSundays.weekStart ∧
      ∃ t, secondSundays.anchor ≤ t ∧ secondSundays.Visits t.date ∧
        ¬ (secondSundays.interval.toNat : Int) ∣
          t.date.weekIndex 1 - secondSundays.anchor.date.weekIndex 1 := by
  have hanchor : secondSundays.anchor ≤ .ofDate ⟨-3652053, by decide, by decide⟩ := by decide
  refine ⟨build_secondSundays, rfl, rfl, _, hanchor, ?_, by decide⟩
  rw [visits_iff_dvd rfl hanchor]
  decide

end Rule

end Recurrence
