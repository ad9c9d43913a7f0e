import Recurrence.Proofs.Grid
import Recurrence.Proofs.Sequence

/-!
# Rules that recur at the same moments

Two rules may walk through time in different units and still have the same
occurrences: one takes a year at a time and selects days and hours in it, the other
goes from second to second and asks of each whether it is wanted. When no period is
left out and no positions are counted, an occurrence is a moment that matches in the
period around it, whichever that is (`mem_unlimited_iff`). So it is enough to
compare the two rules at one moment, in the two periods that hold it: that is
`CarriesTo`, and `occurrences_eq_of_carriesTo` does the rest.

Two such comparisons are made. A rule that names days and the whole clock asks its
anchor for nothing, and then its frequency makes no difference at all. And a rule
that names months selects the same by years as by months, numbered weekdays
included, since by years it counts them within the month.
-/

namespace Recurrence

namespace Rule

/-! ## Comparing two rules at one moment -/

/-- A built rule that leaves no period out and counts no positions. -/
structure Gapless (rule : Rule) : Prop where
  valid : rule.Valid
  interval : rule.interval = 1
  positions : rule.positions = []

/-- What matches one rule in a period of it matches the other in its period around the moment. -/
def CarriesTo (rule other : Rule) : Prop :=
  ∀ ⦃t : DateTime⦄ ⦃p q : Period⦄, p.Valid → q.Valid → p.frequency = rule.frequency →
    q.frequency = other.frequency → q.Contains t → rule.Matches p t → other.Matches q t

section Comparison

variable {rule other : Rule} {t : DateTime}

theorem mem_unlimited_of_carriesTo (hrule : rule.Gapless) (hother : other.Gapless)
    (hanchor : other.anchor = rule.anchor) (hcarries : rule.CarriesTo other)
    (h : t ∈ rule.unlimited) : t ∈ other.unlimited := by
  obtain ⟨hle, p, hp, hpt⟩ := (mem_unlimited_iff hrule.valid hrule.positions).1 h
  rw [← hanchor] at hle
  obtain ⟨q, hq, hqt⟩ := exists_visited hother.interval hle
  have hpaligned := Walk.aligned_of_mem_periods (Walk.aligned_ofRule rule) p hp
  have hqaligned := Walk.aligned_of_mem_periods (Walk.aligned_ofRule other) q hq
  refine (mem_unlimited_iff hother.valid hother.positions).2 ⟨hle, q, hq, ?_⟩
  exact hcarries hpaligned.valid hqaligned.valid (frequency_of_mem_periods hp)
    (frequency_of_mem_periods hq) hqt hpt

theorem occurrences_eq_of_carriesTo (hrule : rule.Gapless) (hother : other.Gapless)
    (hanchor : other.anchor = rule.anchor) (hlimit : other.limit = rule.limit)
    (hto : rule.CarriesTo other) (hback : other.CarriesTo rule) :
    other.occurrences = rule.occurrences := by
  have hsame : other.unlimited = rule.unlimited := by
    refine (pairwise_unlimited hother.valid).eq_of_mem_iff (pairwise_unlimited hrule.valid)
      fun t => ?_
    constructor
    · intro h
      exact mem_unlimited_of_carriesTo hother hrule hanchor.symm hback h
    · intro h
      exact mem_unlimited_of_carriesTo hrule hother hanchor hto h
  rw [occurrences, occurrences, hsame, cut, cut, hlimit]

end Comparison

theorem gapless_of_build {draft : Draft} {rule : Rule} (hbuild : draft.build = .ok rule)
    (hinterval : draft.interval = none ∨ draft.interval = some 1)
    (hpositions : draft.positions = []) : rule.Gapless := by
  have hbuilds := Draft.builds_of_build hbuild
  refine ⟨valid_of_build hbuild, ?_, ?_⟩
  · rw [hbuilds.interval]
    rcases hinterval with h | h <;> rw [h] <;> rfl
  · exact (Field.eq_nil_iff_of_check (fun _ _ => Int16.toInt_inj.1) hbuilds.positions).2
      hpositions

/-- One draft under two frequencies: the rules differ in nothing else, so if each carries over to
the other they have the same occurrences. -/
theorem exists_common_toList {draft : Draft} {rule : Rule} (hbuild : draft.build = .ok rule)
    (hgapless : rule.Gapless) {f g : Frequency}
    (hto : { rule with frequency := f }.CarriesTo { rule with frequency := g })
    (hback : { rule with frequency := g }.CarriesTo { rule with frequency := f }) :
    ∃ all, { draft with frequency := f }.build = .ok { rule with frequency := f } ∧
      { draft with frequency := g }.build = .ok { rule with frequency := g } ∧
      { rule with frequency := f }.cursor.toList = .ok all ∧
      { rule with frequency := g }.cursor.toList = .ok all := by
  have hbuilds : ∀ frequency, { draft with frequency := frequency }.build =
      .ok { rule with frequency := frequency } := by
    intro frequency
    rw [Draft.build_with_frequency, hbuild]
    rfl
  have hwhole : ∀ frequency, { rule with frequency := frequency }.Gapless := fun frequency =>
    ⟨valid_of_build (hbuilds frequency), hgapless.interval, hgapless.positions⟩
  refine ⟨{ rule with frequency := f }.occurrences, hbuilds f, hbuilds g,
    toList_cursor (hwhole f).valid, ?_⟩
  rw [toList_cursor (hwhole g).valid,
    occurrences_eq_of_carriesTo (hwhole f) (hwhole g) rfl rfl hto hback]

/-- A moment that matches keeps doing so in another period around it once its day matches there,
if the first period leaves to the anchor all parts of the clock that the rule does not name. -/
theorem Matches.carried {rule : Rule} {f g : Frequency} {t : DateTime} {p q : Period}
    (hp : { rule with frequency := f }.Matches p t) (hq : q.Contains t)
    (hday : { rule with frequency := g }.MatchesDay q t.date)
    (hhour : rule.hours = [] → p.pinnedHour? = none)
    (hminute : rule.minutes = [] → p.pinnedMinute? = none)
    (hsecond : rule.seconds = [] → p.pinnedSecond? = none) :
    { rule with frequency := g }.Matches q t where
  whole := hp.whole
  within := exists_mem_days_iff.1 hq.day
  day := hday
  hour := ⟨hq.hour, hp.hour.mem_values, fun _ h => hp.hour.eq_anchored (hhour h) h⟩
  minute := ⟨hq.minute, hp.minute.mem_values, fun _ h => hp.minute.eq_anchored (hminute h) h⟩
  second := ⟨hq.second, hp.second.mem_values, fun _ h => hp.second.eq_anchored (hsecond h) h⟩

/-! ## Rules that say everything -/

/-- A rule without gaps that leaves nothing to its anchor: it names days, by plain weekdays if by
weekdays at all, and hours, minutes and seconds. -/
structure Explicit (rule : Rule) : Prop extends rule.Gapless where
  days : ¬ rule.NoDayRules
  weekdays : ∀ entry ∈ rule.weekdays, entry.ordinal = none
  hours : rule.hours ≠ []
  minutes : rule.minutes ≠ []
  seconds : rule.seconds ≠ []

theorem Explicit.carriesTo {rule : Rule} (h : rule.Explicit) (f g : Frequency) :
    { rule with frequency := f }.CarriesTo { rule with frequency := g } := by
  intro t p q _ _ _ _ hq hp
  have hday : { rule with frequency := g }.MatchesDay q t.date := by
    refine { hp.day with anchorMonth := ?_, anchorDay := ?_, weekday := ?_, anchorWeekday := ?_ }
    · intro _ _ hnone
      exact absurd hnone h.days
    · intro _ hnone
      exact absurd hnone h.days
    · intro hnonempty
      obtain ⟨entry, hentry, hweekday, -⟩ := hp.day.weekday hnonempty
      refine ⟨entry, hentry, hweekday, fun ordinal hordinal => ?_⟩
      rw [h.weekdays entry hentry] at hordinal
      cases hordinal
    · intro _ hnone
      exact absurd hnone h.days
  exact hp.carried hq hday (fun hempty => absurd hempty h.hours)
    (fun hempty => absurd hempty h.minutes) fun hempty => absurd hempty h.seconds

end Rule

/-- What a draft has to say so that its rule leaves nothing to the anchor. An ordinal of zero is
no ordinal. -/
structure Draft.Explicit (draft : Draft) : Prop where
  interval : draft.interval = none ∨ draft.interval = some 1
  positions : draft.positions = []
  days : draft.weekNumbers ≠ [] ∨ draft.yearDays ≠ [] ∨ draft.monthDays ≠ [] ∨
    draft.weekdays ≠ []
  weekdays : ∀ entry ∈ draft.weekdays, entry.ordinal = none ∨ entry.ordinal = some 0
  hours : draft.hours ≠ []
  minutes : draft.minutes ≠ []
  seconds : draft.seconds ≠ []

namespace Rule

theorem explicit_of_build {draft : Draft} {rule : Rule} (hbuild : draft.build = .ok rule)
    (h : draft.Explicit) : rule.Explicit := by
  have hbuilds := Draft.builds_of_build hbuild
  have hint8 : ∀ a b : Int8, a.toInt = b.toInt → a = b := fun _ _ => Int8.toInt_inj.1
  have hint16 : ∀ a b : Int16, a.toInt = b.toInt → a = b := fun _ _ => Int16.toInt_inj.1
  refine { gapless_of_build hbuild h.interval h.positions with
    days := ?_, weekdays := ?_, hours := ?_, minutes := ?_, seconds := ?_ }
  · rintro ⟨hweeks, hyears, hmonths, hweekdays⟩
    rw [Field.eq_nil_iff_of_check hint8 hbuilds.weekNumbers] at hweeks
    rw [Field.eq_nil_iff_of_check hint16 hbuilds.yearDays] at hyears
    rw [Field.eq_nil_iff_of_check hint8 hbuilds.monthDays] at hmonths
    rw [Draft.weekdays_eq_nil_iff hbuilds] at hweekdays
    rcases h.days with hne | hne | hne | hne
    · exact hne hweeks
    · exact hne hyears
    · exact hne hmonths
    · exact hne hweekdays
  · intro entry hentry
    obtain ⟨raw, hraw, hcheck⟩ := (Draft.mem_weekdays_iff hbuilds entry).1 hentry
    rw [WeekdayEntry.check_of_plain (h.weekdays raw hraw)] at hcheck
    cases hcheck
    rfl
  · exact mt (Field.eq_nil_iff_of_check hint8 hbuilds.hours).1 h.hours
  · exact mt (Field.eq_nil_iff_of_check hint8 hbuilds.minutes).1 h.minutes
  · exact mt (Field.eq_nil_iff_of_check hint8 hbuilds.seconds).1 h.seconds

/-- A draft that says on which days and at which times its rule recurs builds to rules with the
same occurrences under every frequency. -/
theorem toList_cursor_any_frequency {draft : Draft} {f g : Frequency} {rule other : Rule}
    (hexplicit : draft.Explicit) (hrule : { draft with frequency := f }.build = .ok rule)
    (hother : { draft with frequency := g }.build = .ok other) :
    ∃ all, rule.cursor.toList = .ok all ∧ other.cursor.toList = .ok all := by
  have hfull := explicit_of_build hrule { hexplicit with }
  obtain ⟨all, -, hother', hall, hall'⟩ := exists_common_toList hrule hfull.toGapless
    (hfull.carriesTo f g) (hfull.carriesTo g f)
  have hf : rule.frequency = f := (Draft.builds_of_build hrule).frequency
  subst hf
  rw [hother, Except.ok.injEq] at hother'
  rw [hother']
  exact ⟨all, hall, hall'⟩

/-- Each Friday the thirteenth from September 1997 on, at half past nine, five times. -/
def fridayThirteenth : Rule where
  frequency := .yearly
  interval := 1
  interval_pos := Nat.one_pos
  anchor := .ofDate ((Date.ofFields? 1997 9 2).getD .min)
  limit := some (.count 5)
  months := []
  monthDays := [13]
  yearDays := []
  weekNumbers := []
  weekdays := [⟨none, .friday⟩]
  hours := [9]
  minutes := [30]
  seconds := [0]
  positions := []
  weekStart := .monday

theorem explicit_fridayThirteenth : fridayThirteenth.draft.Explicit where
  interval := Or.inr rfl
  positions := rfl
  days := Or.inr (Or.inr (Or.inl (List.cons_ne_nil _ _)))
  weekdays := by
    intro entry hentry
    rw [List.mem_singleton.1 hentry]
    exact Or.inl rfl
  hours := List.cons_ne_nil _ _
  minutes := List.cons_ne_nil _ _
  seconds := List.cons_ne_nil _ _

theorem toList_cursor_fridayThirteenth :
    fridayThirteenth.draft.Explicit ∧
      { fridayThirteenth.draft with frequency := .yearly }.build = .ok fridayThirteenth ∧
      { fridayThirteenth.draft with frequency := .secondly }.build =
        .ok { fridayThirteenth with frequency := .secondly } ∧
      ∃ all, fridayThirteenth.cursor.toList = .ok all ∧
        { fridayThirteenth with frequency := .secondly }.cursor.toList = .ok all :=
  ⟨explicit_fridayThirteenth, rfl, rfl,
    toList_cursor_any_frequency explicit_fridayThirteenth rfl rfl⟩

/-! ## Years and months -/

theorem pinned_eq_none {period : Period}
    (h : period.frequency = .yearly ∨ period.frequency = .monthly) :
    period.pinnedHour? = none ∧ period.pinnedMinute? = none ∧ period.pinnedSecond? = none := by
  cases period with
  | year y | month y m => exact ⟨rfl, rfl, rfl⟩
  | week first | day first | hour first | minute first | second first =>
      rcases h with h | h <;> cases h

/-- Numbered weekdays count within the month around a day, by years because months are named and
by months because the period is that month. -/
theorem inScope_iff_same_month {rule : Rule} (hmonths : rule.months ≠ []) {period : Period}
    (hperiod : period.Valid) (hfrequency : period.frequency = rule.frequency)
    (h : rule.frequency = .yearly ∨ rule.frequency = .monthly) {day : Date}
    (hday : ∃ days, period.days = .ok days ∧ day ∈ days) (other : Date) :
    rule.InScope period day other ↔ other.year = day.year ∧ other.month = day.month := by
  unfold InScope
  rcases h with hyearly | hmonthly
  · rw [if_pos ⟨hyearly, hmonths⟩]
  · rw [if_neg (by rw [hmonthly]; simp)]
    rw [hmonthly] at hfrequency
    cases period with
    | month y m =>
        rw [Period.mem_days_iff hperiod, ← Period.number_mem_month_iff hperiod.1 hperiod.2] at hday
        rw [Period.mem_days_iff hperiod, ← Period.number_mem_month_iff hperiod.1 hperiod.2,
          hday.1, hday.2]
    | year y | week first | day first | hour first | minute first | second first =>
        cases hfrequency

theorem carriesTo_of_months {rule : Rule} (hmonths : rule.months ≠ [])
    {f g : Frequency} (hf : f = .yearly ∨ f = .monthly) (hg : g = .yearly ∨ g = .monthly) :
    { rule with frequency := f }.CarriesTo { rule with frequency := g } := by
  intro t p q hpvalid hqvalid hpf hqg hq hp
  have hnamed : ∀ frequency, { rule with frequency := frequency }.months ≠ [] :=
    fun _ => hmonths
  have hpscope := inScope_iff_same_month (hnamed f) hpvalid hpf hf hp.contains.day
  have hqscope := inScope_iff_same_month (hnamed g) hqvalid hqg hg hq.day
  have hday : { rule with frequency := g }.MatchesDay q t.date := by
    refine { hp.day with anchorMonth := ?_, anchorDay := ?_, weekday := ?_, anchorWeekday := ?_ }
    · intro hnone
      exact absurd hnone hmonths
    · intro _ hnone
      exact hp.day.anchorDay hf hnone
    · intro hnonempty
      obtain ⟨entry, hentry, hweekday, hnth⟩ := hp.day.weekday hnonempty
      refine ⟨entry, hentry, hweekday, fun ordinal hordinal => ?_⟩
      have hplace := hnth ordinal hordinal
      simp only [hpscope] at hplace
      simp only [hqscope]
      exact hplace
    · intro hweekly
      rcases hg with rfl | rfl <;> cases hweekly
  have hkind : p.frequency = f := hpf
  rw [← hkind] at hf
  obtain ⟨hhour, hminute, hsecond⟩ := pinned_eq_none hf
  exact hp.carried hq hday (fun _ => hhour) (fun _ => hminute) fun _ => hsecond

/-- A draft that names months has by years and by months the same fault, or rules with the same
occurrences. -/
theorem toList_cursor_years_and_months {draft : Draft} (hmonths : draft.months ≠ [])
    (hinterval : draft.interval = none ∨ draft.interval = some 1)
    (hpositions : draft.positions = []) :
    (∃ fault, { draft with frequency := .yearly }.build = .error fault ∧
      { draft with frequency := .monthly }.build = .error fault) ∨
    ∃ yearly monthly all, { draft with frequency := .yearly }.build = .ok yearly ∧
      { draft with frequency := .monthly }.build = .ok monthly ∧
      yearly.cursor.toList = .ok all ∧ monthly.cursor.toList = .ok all := by
  cases hbuild : draft.build with
  | error fault =>
      refine Or.inl ⟨fault, ?_, ?_⟩ <;> rw [Draft.build_with_frequency, hbuild] <;> rfl
  | ok rule =>
      have hbuilds := Draft.builds_of_build hbuild
      have hnamed : rule.months ≠ [] :=
        mt (Field.eq_nil_iff_of_check (fun _ _ => Int8.toInt_inj.1) hbuilds.months).1 hmonths
      obtain ⟨all, hyearly, hmonthly, hall⟩ := exists_common_toList hbuild
        (gapless_of_build hbuild hinterval hpositions)
        (carriesTo_of_months hnamed (Or.inl rfl) (Or.inr rfl))
        (carriesTo_of_months hnamed (Or.inr rfl) (Or.inl rfl))
      exact Or.inr ⟨_, _, all, hyearly, hmonthly, hall⟩

theorem toList_cursor_thanksgiving_by_months :
    thanksgiving.draft.months ≠ [] ∧ thanksgiving.draft.interval = some 1 ∧
      thanksgiving.draft.positions = [] ∧
      ∃ yearly monthly all,
        { thanksgiving.draft with frequency := .yearly }.build = .ok yearly ∧
        { thanksgiving.draft with frequency := .monthly }.build = .ok monthly ∧
        yearly.cursor.toList = .ok all ∧ monthly.cursor.toList = .ok all := by
  have hmonths : thanksgiving.draft.months ≠ [] := List.cons_ne_nil _ _
  refine ⟨hmonths, rfl, rfl, ?_⟩
  rcases toList_cursor_years_and_months hmonths (Or.inr rfl) rfl with ⟨fault, hfault, -⟩ | hsame
  · cases hfault
  · exact hsame

end Rule

end Recurrence
