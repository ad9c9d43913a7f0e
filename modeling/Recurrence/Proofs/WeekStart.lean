import Recurrence.Proofs.Agreement

/-!
# Where the first day of the week matters

The first day of the week is asked for once, when the first period of a weekly rule is
found. With any other frequency nothing else about a run involves it, and two rules that
differ in it alone go through the same periods and select the same in each.

Weekly rules do go through other weeks. When none is left out the weeks still cover the same
days, cut differently, at the beginning and at the end of the calendar too. So the two rules
are compared at one moment, in the two weeks around it, as in `Recurrence.Proofs.Agreement`.
All that they could disagree on is a weekday with an ordinal, which counts within the week. But
seven days hold each weekday at most once: a day is the first and the last of its weekday in
whatever week it lies, and is never the second (`entryMatches_week_iff`).
-/

namespace Recurrence

/-- A date that alone has a property is the first one that has it, and the last. -/
theorem Date.isNth_iff_of_unique {p : Date → Prop} {date : Date} (h : ∀ d, p d ↔ d = date)
    {place : Int} : date.IsNth p place ↔ place = 1 ∨ place = -1 := by
  have hfirst : [date][0]? = some date := rfl
  rw [Date.isNth_iff (List.pairwise_singleton _ date) fun d => by rw [List.mem_singleton, h],
    Calendar.nthOf_eq_some_iff (List.nodup_singleton date) hfirst]
  unfold Calendar.Names
  rw [List.length_singleton]
  omega

theorem Period.exists_eq_week {period : Period} (h : period.frequency = .weekly) :
    ∃ first, period = week first := by
  cases period with
  | week first => exact ⟨first, rfl⟩
  | year y | month y m | day date | hour start | minute start | second start => cases h

namespace Rule

variable {rule : Rule}

/-! ## Weekly rules -/

/-- Within a week a weekday stands for one day, and has the ordinals one and minus one. -/
theorem entryMatches_week_iff (hweekly : rule.frequency = .weekly) {first day : Date}
    (hday : ∃ days, (Period.week first).days = .ok days ∧ day ∈ days) (entry : WeekdayEntry) :
    rule.EntryMatches (.week first) entry day ↔ day.weekday = entry.weekday ∧
      ∀ ordinal, entry.ordinal = some ordinal → ordinal.toInt = 1 ∨ ordinal.toInt = -1 := by
  have hvalid : (Period.week first).Valid := trivial
  have hbounds := (Period.mem_days_iff hvalid day).1 hday
  refine and_congr_right fun hweekday => forall₂_congr fun ordinal _ => ?_
  refine Date.isNth_iff_of_unique fun other => ?_
  rw [InScope, if_neg (by rw [hweekly]; simp), Period.mem_days_iff hvalid]
  simp only [Period.firstNumber, Period.lastNumber] at hbounds ⊢
  constructor
  · rintro ⟨hother, hsame⟩
    rw [← hweekday, Date.weekday_eq_weekday_iff] at hsame
    exact Date.ext_number (by omega)
  · rintro rfl
    exact ⟨hbounds, hweekday⟩

/-- What a weekly rule matches in a week it matches in any week around the moment, whatever the
first days of the two weeks are. -/
theorem carriesTo_of_weekly (hweekly : rule.frequency = .weekly) (weekStart other : Weekday) :
    { rule with weekStart := weekStart }.CarriesTo { rule with weekStart := other } := by
  intro t p q _ _ hp hq hcontains h
  obtain ⟨first, rfl⟩ := Period.exists_eq_week (hp.trans hweekly)
  obtain ⟨first', rfl⟩ := Period.exists_eq_week (hq.trans hweekly)
  have hfrom : { rule with weekStart := weekStart }.frequency = .weekly := hweekly
  have hto : { rule with weekStart := other }.frequency = .weekly := hweekly
  -- All but the weekday entries asks about the moment itself and not about its week.
  refine ⟨h.whole, exists_mem_days_iff.1 hcontains.day, { h.day with weekday := ?_ }, h.hour,
    h.minute, h.second⟩
  intro hne
  obtain ⟨entry, hmem, hentry⟩ := h.day.weekday hne
  rw [entryMatches_week_iff hfrom h.contains.day] at hentry
  exact ⟨entry, hmem, (entryMatches_week_iff hto hcontains.day entry).2 hentry⟩

theorem Gapless.with_weekStart (h : rule.Gapless) (weekStart : Weekday) :
    { rule with weekStart := weekStart }.Gapless :=
  ⟨{ h.valid with }, h.interval, h.positions⟩

theorem occurrences_of_gapless (h : rule.Gapless) (hweekly : rule.frequency = .weekly)
    (weekStart : Weekday) :
    { rule with weekStart := weekStart }.occurrences = rule.occurrences :=
  occurrences_eq_of_carriesTo h (h.with_weekStart weekStart) rfl rfl
    (carriesTo_of_weekly hweekly rule.weekStart weekStart)
    (carriesTo_of_weekly hweekly weekStart rule.weekStart)

/-! ## All rules -/

/-- Only a weekly rule looks at the first day of the week. -/
theorem occurrences_of_not_weekly (hweekly : rule.frequency ≠ .weekly) (weekStart : Weekday) :
    { rule with weekStart := weekStart }.occurrences = rule.occurrences := by
  have hwalk : Walk.ofRule { rule with weekStart := weekStart } = Walk.ofRule rule := by
    unfold Walk.ofRule Period.containing
    cases hfrequency : rule.frequency with
    | weekly => exact absurd hfrequency hweekly
    | yearly | monthly | daily | hourly | minutely | secondly => rfl
  have hexpansion : { rule with weekStart := weekStart }.expansion = rule.expansion := rfl
  rw [occurrences, occurrences, unlimited, unlimited, Walk.candidates, Walk.candidates, hwalk,
    hexpansion]
  rfl

theorem build_with_weekStart {draft : Draft} {weekStart : Option Weekday} (other : Option Weekday)
    (hbuild : { draft with weekStart := weekStart }.build = .ok rule) :
    { draft with weekStart := other }.build =
      .ok { rule with weekStart := other.getD .monday } :=
  Draft.build_of_builds { Draft.builds_of_build hbuild with weekStart := rfl }

/-- Two rules that are built alike but for the first day of the week have the same occurrences,
unless they are weekly and leave weeks out or pick positions in them. And in no case does the first
day of the week decide which days the numbers of weeks keep. -/
theorem toList_cursor_any_weekStart {draft : Draft} {weekStart weekStart' : Option Weekday}
    {other : Rule} (hrule : { draft with weekStart := weekStart }.build = .ok rule)
    (hother : { draft with weekStart := weekStart' }.build = .ok other) :
    (draft.frequency ≠ .weekly ∨
        (draft.interval = none ∨ draft.interval = some 1) ∧ draft.positions = [] →
      ∃ all, rule.cursor.toList = .ok all ∧ other.cursor.toList = .ok all) ∧
    ∀ day, ∃ kept, rule.keepsWeek day = .ok kept ∧ other.keepsWeek day = .ok kept := by
  have hbuilt := build_with_weekStart weekStart' hrule
  rw [hother, Except.ok.injEq] at hbuilt
  have hfrequency : rule.frequency = draft.frequency := (Draft.builds_of_build hrule).frequency
  constructor
  · intro h
    refine ⟨rule.occurrences, toList_cursor (valid_of_build hrule), ?_⟩
    rw [toList_cursor (valid_of_build hother)]
    by_cases hweekly : rule.frequency = .weekly
    · rw [← hfrequency] at h
      obtain ⟨hinterval, hpositions⟩ := h.resolve_left fun hne => hne hweekly
      rw [hbuilt, occurrences_of_gapless (gapless_of_build hrule hinterval hpositions) hweekly]
    · rw [hbuilt, occurrences_of_not_weekly hweekly]
  · intro day
    obtain ⟨kept, hkept, -⟩ := keepsWeek_decides (valid_of_build hrule) day
    refine ⟨kept, hkept, ?_⟩
    rw [hbuilt]
    exact hkept

/-- Wednesdays and Sundays, numbered within weeks from Sunday on, from the first day of the
calendar. -/
def numberedDays : Rule where
  frequency := .weekly
  interval := 1
  interval_pos := Nat.one_pos
  anchor := .ofDate .min
  limit := some (.count 10)
  months := []
  monthDays := []
  yearDays := []
  weekNumbers := []
  weekdays := [⟨some (-1), .wednesday⟩, ⟨some 1, .sunday⟩]
  hours := []
  minutes := []
  seconds := []
  positions := []
  weekStart := .sunday

theorem toList_cursor_numberedDays :
    { numberedDays.draft with weekStart := some .sunday }.build = .ok numberedDays ∧
      { numberedDays.draft with weekStart := none }.build =
        .ok { numberedDays with weekStart := .monday } ∧
      numberedDays.draft.interval = some 1 ∧ numberedDays.draft.positions = [] ∧
      ∃ all, numberedDays.cursor.toList = .ok all ∧
        { numberedDays with weekStart := .monday }.cursor.toList = .ok all := by
  have hsunday : { numberedDays.draft with weekStart := some .sunday }.build =
      .ok numberedDays := rfl
  have hmonday : { numberedDays.draft with weekStart := none }.build =
      .ok { numberedDays with weekStart := .monday } := rfl
  exact ⟨hsunday, hmonday, rfl, rfl,
    (toList_cursor_any_weekStart hsunday hmonday).1 (Or.inr ⟨Or.inr rfl, rfl⟩)⟩

end Rule

end Recurrence
