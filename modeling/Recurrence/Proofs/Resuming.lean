import Recurrence.Proofs.Sequence
import Recurrence.Proofs.Weeks

/-!
# Resuming from a later anchor

A rule that says on which days and at which times it recurs needs its anchor for two
things only: for the period with which its walk begins, and as the moment before which
there are no occurrences. What it selects from a period is the same with every anchor
(`expand_with_anchor`).

An anchor in a period that the rule visits anyway begins the walk with that period
(`containing_eq_of_mem_periods`), and so the walk from there is the rest of the walk
(`periods_with_anchor`). Positions are picked within a whole period, before anything is
cut off at the anchor; so nothing is lost of the occurrences from the later anchor on.

Of a weekly rule the week of the first anchor must not begin before the calendar. If it
does, all its weeks are shifted, and the week of a later anchor is none of them.
-/

namespace Recurrence

/-! ## The period around a moment -/

namespace Period

theorem unitsTo_eq_zero {period : Period} (h : period.Aligned) {t : DateTime}
    (hcontains : period.Contains t) : period.opens ≤ t.second ∧ period.unitsTo t = 0 :=
  (contains_advance_iff h (advance_zero h.valid)).1 hcontains

/-- Of a period other than a week there is only one with a moment in it. -/
theorem containing_eq_of_contains {period : Period} (h : period.Aligned) {t : DateTime}
    (hcontains : period.Contains t) (hweek : period.frequency ≠ .weekly) (weekStart : Weekday) :
    containing period.frequency t weekStart = period := by
  obtain ⟨hopens, hunits⟩ := unitsTo_eq_zero h hcontains
  cases period with
  | year y =>
      have hle := year_le_of_opens_le hopens
      rw [unitsTo] at hunits
      exact congrArg year (by omega)
  | month y m =>
      have hle := monthIndex_le_of_opens_le h.2 hopens
      have hvalid := (valid_month t.date).2
      rw [unitsTo] at hunits
      have hindex : monthIndex t.date.year t.date.month = monthIndex y m := by omega
      have hyear : monthIndex t.date.year t.date.month / 12 = _ := monthIndex_div hvalid
      have hmonth : monthIndex t.date.year t.date.month % 12 + 1 = _ := monthIndex_mod hvalid
      rw [hindex, monthIndex_div h.2] at hyear
      rw [hindex, monthIndex_mod h.2] at hmonth
      exact congrArg₂ month hyear.symm hmonth.symm
  | week first => exact absurd rfl hweek
  | day date =>
      have hdate := t.number_date
      simp only [opens, firstNumber] at hopens
      rw [unitsTo] at hunits
      exact congrArg day (Date.ext_number (by omega))
  | hour start =>
      obtain ⟨hfull, hnano⟩ := h
      simp only [opens] at hopens
      rw [unitsTo] at hunits
      refine congrArg hour (DateTime.ext_fields ?_ hnano.symm)
      simp only [DateTime.startOfHour]
      omega
  | minute start =>
      obtain ⟨hfull, hnano⟩ := h
      simp only [opens] at hopens
      rw [unitsTo] at hunits
      refine congrArg minute (DateTime.ext_fields ?_ hnano.symm)
      simp only [DateTime.startOfMinute]
      omega
  | second start =>
      have hnano : start.nano = 0 := h
      simp only [opens] at hopens
      rw [unitsTo] at hunits
      refine congrArg second (DateTime.ext_fields ?_ hnano.symm)
      simp only [DateTime.wholeSecond]
      omega

end Period

namespace Rule

variable {rule : Rule} {t : DateTime}

/-- Weeks that begin on Mondays are not cut off: the calendar begins on one. -/
theorem min_le_weekOpening (h : rule.weekStart = .monday) :
    Date.min.number ≤ rule.weekOpening := by
  have hfirst := rule.anchor.date.first_le
  have hoffset := rule.anchor.date.offset_weekday
  have hmonday : Weekday.monday.offset = 0 := rfl
  simp only [weekOpening, h, Weekday.daysAfter, hmonday, Date.min]
  omega

/-- The weeks of a weekly rule begin on its first day of the week if the first of them does. -/
theorem containing_eq_of_weekly (hweekly : rule.frequency = .weekly)
    (hopening : Date.min.number ≤ rule.weekOpening) {period : Period}
    (hperiod : period ∈ (Walk.ofRule rule).periods) (hcontains : period.Contains t) :
    Period.containing .weekly t rule.weekStart = period := by
  obtain ⟨k, hadvance⟩ := (Walk.mem_periods_iff (Walk.aligned_ofRule rule) rfl).1 hperiod
  obtain ⟨first, hfirst, hnumber⟩ := Period.exists_containing_weekly rule.anchor rule.weekStart
  obtain ⟨around, haround, hnumber'⟩ := Period.exists_containing_weekly t rule.weekStart
  rw [hweekly, hfirst] at hadvance
  obtain ⟨date, hdate, rfl⟩ := Option.map_eq_some_iff.1 hadvance
  have hbounds := (Period.contains_iff (show (Period.week date).Aligned from trivial)).1 hcontains
  have hsteps := Period.number_of_addDays? hdate
  generalize k * (Walk.ofRule rule).interval = weeks at hsteps
  -- Both first days fall on the same weekday, and neither is a week away from the moment.
  have hanchor := rule.anchor.date.offset_weekday
  have hoffset := t.date.offset_weekday
  have hday := t.number_date
  simp only [weekOpening, Weekday.daysAfter] at hopening hnumber hnumber'
  simp only [Period.opens, Period.closes, Period.firstNumber, Period.lastNumber] at hbounds
  rw [haround]
  exact congrArg Period.week (Date.ext_number (by omega))

/-- The period around a moment of a period that the rule visits is that period. -/
theorem containing_eq_of_mem_periods
    (hweek : rule.frequency = .weekly → Date.min.number ≤ rule.weekOpening) {period : Period}
    (hperiod : period ∈ (Walk.ofRule rule).periods) (hcontains : period.Contains t) :
    Period.containing rule.frequency t rule.weekStart = period := by
  by_cases hweekly : rule.frequency = .weekly
  · rw [hweekly]
    exact containing_eq_of_weekly hweekly (hweek hweekly) hperiod hcontains
  · have haligned := Walk.aligned_of_mem_periods (Walk.aligned_ofRule rule) period hperiod
    have hfrequency := frequency_of_mem_periods hperiod
    rw [← hfrequency]
    exact Period.containing_eq_of_contains haligned hcontains (by rwa [hfrequency]) _

/-! ## The later walk -/

/-- From an anchor in its `k`-th period on, a rule visits that period and all behind it. -/
theorem periods_with_anchor
    (hweek : rule.frequency = .weekly → Date.min.number ≤ rule.weekOpening) {k : Nat}
    {period : Period} (hperiod : (Walk.ofRule rule).periods[k]? = some period)
    (hcontains : period.Contains t) :
    (Walk.ofRule { rule with anchor := t }).periods = (Walk.ofRule rule).periods.drop k := by
  have hfirst : { rule with anchor := t }.firstPeriod = period :=
    containing_eq_of_mem_periods hweek (List.mem_of_getElem? hperiod) hcontains
  rw [getElem?_periods_ofRule] at hperiod
  refine List.ext_getElem? fun j => ?_
  rw [List.getElem?_drop, getElem?_periods_ofRule, getElem?_periods_ofRule, hfirst,
    Nat.add_mul, Period.advance_add rule.aligned_firstPeriod.valid, hperiod, Option.bind_some]

/-! ## The same selections -/

theorem clockValues_of_ne_nil (pinned : Option Int) {values : List Int8} (h : values ≠ [])
    (anchored other : Int) :
    clockValues pinned values anchored = clockValues pinned values other := by
  have hvalues : values.isEmpty = false := List.isEmpty_eq_false_iff.2 h
  unfold clockValues
  cases pinned <;> simp only [hvalues, Bool.false_eq_true, if_false]

theorem selectDays_with_anchor (hdays : ¬ rule.NoDayRules) (anchor : DateTime)
    (period : Period) :
    { rule with anchor := anchor }.selectDays period = rule.selectDays period := by
  have hrules : rule.hasDayRules = true :=
    Bool.eq_true_of_not_eq_false fun h => hdays (hasDayRules_eq_false_iff.1 h)
  have hrules' : { rule with anchor := anchor }.hasDayRules = true := hrules
  -- The anchor is asked in three places, and in each of them only where there are no such rules.
  have hmonth : { rule with anchor := anchor }.keepsMonth = rule.keepsMonth := by
    funext day
    simp only [keepsMonth, hrules, hrules', Bool.not_true, Bool.and_false, Bool.false_eq_true,
      if_false]
  have hday : { rule with anchor := anchor }.keepsAnchorDay = rule.keepsAnchorDay := by
    funext day
    simp only [keepsAnchorDay, hrules, hrules', Bool.not_true, Bool.and_false,
      Bool.false_eq_true, if_false]
  have hweekday : { rule with anchor := anchor }.keepsWeekday period =
      rule.keepsWeekday period := by
    funext day
    simp only [keepsWeekday, hrules, hrules', Bool.not_true, Bool.and_false,
      Bool.false_eq_true, if_false]
    rfl
  rw [selectDays, selectDays, hmonth, hday, hweekday]
  rfl

/-- What a rule selects from a period does not involve its anchor, if it says enough. -/
theorem expand_with_anchor (hdays : ¬ rule.NoDayRules) (hhours : rule.hours ≠ [])
    (hminutes : rule.minutes ≠ []) (hseconds : rule.seconds ≠ []) (anchor : DateTime)
    (period : Period) : { rule with anchor := anchor }.expand period = rule.expand period := by
  have hcross : { rule with anchor := anchor }.crossClock period = rule.crossClock period := by
    funext days
    simp only [crossClock]
    rw [clockValues_of_ne_nil _ hhours anchor.hour rule.anchor.hour,
      clockValues_of_ne_nil _ hminutes anchor.minute rule.anchor.minute,
      clockValues_of_ne_nil _ hseconds anchor.secondOfMinute rule.anchor.secondOfMinute]
  rw [expand, expand, selectDays_with_anchor hdays, hcross]
  rfl

/-! ## The later occurrences -/

/-- What is selected before the period of a moment is earlier than the moment. -/
theorem filter_candidates {period : Period} {k : Nat} (hrule : rule.Valid)
    (hperiod : (Walk.ofRule rule).periods[k]? = some period) (hcontains : period.Contains t) :
    ((Walk.ofRule rule).candidates rule).filter (t ≤ ·) =
      (((Walk.ofRule rule).periods.drop k).flatMap rule.expansion).filter (t ≤ ·) := by
  have haligned := Walk.aligned_of_mem_periods (Walk.aligned_ofRule rule)
  have hopens :=
    ((Period.contains_iff (haligned period (List.mem_of_getElem? hperiod))).1 hcontains).1
  have hbehind : period ∈ (Walk.ofRule rule).periods.drop k := by
    refine List.mem_of_getElem? (i := 0) ?_
    rw [List.getElem?_drop, Nat.add_zero, hperiod]
  have hordered := Walk.pairwise_periods (Walk.aligned_ofRule rule)
  rw [← List.take_append_drop k (Walk.ofRule rule).periods, List.pairwise_append] at hordered
  have hearlier : (((Walk.ofRule rule).periods.take k).flatMap rule.expansion).filter (t ≤ ·) =
      [] := by
    rw [List.filter_eq_nil_iff]
    intro u hu
    obtain ⟨p, hp, hup⟩ := List.mem_flatMap.1 hu
    have hcloses := hordered.2.2 p hp period hbehind
    have hbounds := bounds_of_mem_expansion hrule (haligned p (List.mem_of_mem_take hp)) hup
    rw [decide_eq_true_eq, not_le, DateTime.lt_iff]
    omega
  rw [Walk.candidates]
  conv_lhs => rw [← List.take_append_drop k (Walk.ofRule rule).periods]
  rw [List.flatMap_append, List.filter_append, hearlier, List.nil_append]

theorem unlimited_with_anchor (hrule : rule.Valid) (hdays : ¬ rule.NoDayRules)
    (hhours : rule.hours ≠ []) (hminutes : rule.minutes ≠ []) (hseconds : rule.seconds ≠ [])
    (hweek : rule.frequency = .weekly → Date.min.number ≤ rule.weekOpening)
    (hlater : rule.anchor ≤ t)
    (hvisited : ∃ period ∈ (Walk.ofRule rule).periods, period.Contains t) :
    { rule with anchor := t }.unlimited = rule.unlimited.filter (t ≤ ·) := by
  obtain ⟨period, hmem, hcontains⟩ := hvisited
  obtain ⟨k, hperiod⟩ := List.mem_iff_getElem?.1 hmem
  have hexpansion : { rule with anchor := t }.expansion = rule.expansion := by
    funext p
    rw [expansion, expansion, expand_with_anchor hdays hhours hminutes hseconds]
  have hboth : rule.unlimited.filter (t ≤ ·) =
      ((Walk.ofRule rule).candidates rule).filter (t ≤ ·) := by
    rw [unlimited, List.filter_filter]
    refine List.filter_congr fun u _ => ?_
    by_cases hu : t ≤ u
    · rw [decide_eq_true hu, decide_eq_true (hlater.trans hu), Bool.and_true]
    · rw [decide_eq_false hu, Bool.false_and]
  rw [hboth, filter_candidates hrule hperiod hcontains, unlimited, Walk.candidates,
    periods_with_anchor hweek hperiod hcontains, hexpansion]

theorem build_with_anchor {draft : Draft} (hbuild : draft.build = .ok rule)
    (hwhole : t.nano = 0) : { draft with anchor := t }.build = .ok { rule with anchor := t } :=
  Draft.build_of_builds
    { Draft.builds_of_build hbuild with anchor := DateTime.ext_fields rfl hwhole }

/-- A rule without limit that says on which days and at which times it recurs has, from any
anchor in a period that it visits, the occurrences that it has had from there on before. -/
theorem toList_cursor_with_anchor {draft : Draft} (hbuild : draft.build = .ok rule)
    (hlimit : rule.limit = none) (hdays : ¬ rule.NoDayRules) (hhours : rule.hours ≠ [])
    (hminutes : rule.minutes ≠ []) (hseconds : rule.seconds ≠ [])
    (hweek : rule.frequency = .weekly → rule.weekStart = .monday) (hwhole : t.nano = 0)
    (hlater : rule.anchor ≤ t)
    (hvisited : ∃ period ∈ (Walk.ofRule rule).periods, period.Contains t) :
    ∃ all, rule.cursor.toList = .ok all ∧
      { draft with anchor := t }.build = .ok { rule with anchor := t } ∧
      { rule with anchor := t }.cursor.toList = .ok (all.filter (t ≤ ·)) := by
  have hrule := valid_of_build hbuild
  have hbuild' := build_with_anchor hbuild hwhole
  have hlimit' : { rule with anchor := t }.limit = none := hlimit
  refine ⟨rule.unlimited, ?_, hbuild', ?_⟩
  · rw [toList_cursor hrule, occurrences_of_limit_eq_none hlimit]
  · rw [toList_cursor (valid_of_build hbuild'), occurrences_of_limit_eq_none hlimit',
      unlimited_with_anchor hrule hdays hhours hminutes hseconds
        (fun hweekly => min_le_weekOpening (hweek hweekly)) hlater hvisited]

/-- Half past nine on the last workday of every third month, from January 2024 on. -/
def closingDay : Rule where
  frequency := .monthly
  interval := 3
  interval_pos := by decide
  anchor := .ofDate ((Date.ofFields? 2024 1 10).getD .min)
  limit := none
  months := []
  monthDays := []
  yearDays := []
  weekNumbers := []
  weekdays := [⟨none, .monday⟩, ⟨none, .tuesday⟩, ⟨none, .wednesday⟩, ⟨none, .thursday⟩,
    ⟨none, .friday⟩]
  hours := [9]
  minutes := [30]
  seconds := [0]
  positions := [-1]
  weekStart := .sunday

theorem build_closingDay : closingDay.draft.build = .ok closingDay :=
  rfl

/-- A moment of the next month that is visited, with most of its workdays behind it. -/
def lateApril : DateTime :=
  .ofDate ((Date.ofFields? 2024 4 20).getD .min)

theorem toList_cursor_closingDay :
    closingDay.anchor ≤ lateApril ∧
      (∃ period ∈ (Walk.ofRule closingDay).periods, period.Contains lateApril) ∧
      ∃ all, closingDay.cursor.toList = .ok all ∧
        { closingDay with anchor := lateApril }.cursor.toList =
          .ok (all.filter (lateApril ≤ ·)) := by
  have hlater : closingDay.anchor ≤ lateApril := by decide
  have hvisited := (exists_visited_iff hlater).2 (by decide)
  obtain ⟨all, hall, -, hrest⟩ := toList_cursor_with_anchor build_closingDay rfl
    (fun h => List.cons_ne_nil _ _ h.2.2.2) (List.cons_ne_nil _ _) (List.cons_ne_nil _ _)
    (List.cons_ne_nil _ _) nofun rfl hlater hvisited
  exact ⟨hlater, hvisited, all, hall, hrest⟩

end Rule

end Recurrence
