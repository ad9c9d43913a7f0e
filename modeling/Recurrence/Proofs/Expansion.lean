import Recurrence.Proofs.Selection

/-!
# What a period expands to

The days that a rule selects are crossed with the readings of the clock that it
admits. Both ascend, and so does their product, since a date-time is compared by
its date, then its hour, minute and second; that is why the expansion needs no
sorting. `crossClock_spec` says which date-times the product holds, in the words
of `Matches`: what a rule without positions says about a single date-time.

For a rule without positions that is the reading of the whole cascade: what a
period expands to ascends, and holds exactly the date-times that match.
-/

namespace Recurrence

theorem length_flatMap_of_forall {α β : Type} {values : List α} {f : α → List β} {n : Nat}
    (h : ∀ a ∈ values, (f a).length = n) : (values.flatMap f).length = values.length * n := by
  rw [List.length_flatMap, List.map_congr_left h, List.map_const', List.sum_replicate_nat]

/-- What a list of hours, minutes or seconds says about a part of the clock. The part is the one
that the period fixes, if it fixes it, and one of the list, if the list has any; where neither
decides, it is the anchor's. -/
structure ClockMatches (pinned : Option Int) (values : List Int8) (anchored part : Int) : Prop where
  eq_pinned : ∀ fixed, pinned = some fixed → part = fixed
  mem_values : values ≠ [] → part ∈ values.map Int8.toInt
  eq_anchored : pinned = none → values = [] → part = anchored

theorem mem_clockValues_iff {field : Field} {values : List Int8}
    (hvalues : field.Normal Int8.toInt values) {pinned : Option Int} {anchored part : Int} :
    part ∈ clockValues pinned values anchored ↔ ClockMatches pinned values anchored part := by
  unfold clockValues
  cases pinned with
  | none =>
      cases values with
      | nil =>
          simp only [List.isEmpty_nil, if_true, List.mem_singleton]
          constructor
          · rintro rfl
            exact ⟨fun _ h => (by cases h), fun h => absurd rfl h, fun _ _ => rfl⟩
          · intro h
            exact h.eq_anchored rfl rfl
      | cons value values =>
          simp only [List.isEmpty_cons, Bool.false_eq_true, if_false]
          constructor
          · intro h
            exact ⟨fun _ h => (by cases h), fun _ => h, fun _ h => (by cases h)⟩
          · intro h
            exact h.mem_values (List.cons_ne_nil value values)
  | some fixed =>
      simp only []
      by_cases hadmits : values.isEmpty || holds Int8.toInt values fixed
      · rw [if_pos hadmits, List.mem_singleton]
        simp only [Bool.or_eq_true, List.isEmpty_iff, holds_iff hvalues.1] at hadmits
        constructor
        · rintro rfl
          refine ⟨fun _ h => Option.some_inj.1 h, fun hne => ?_, fun h => (by cases h)⟩
          exact List.mem_map.2 (hadmits.resolve_left hne)
        · intro h
          exact h.eq_pinned fixed rfl
      · rw [if_neg hadmits]
        simp only [Bool.or_eq_true, List.isEmpty_iff, holds_iff hvalues.1, not_or] at hadmits
        refine iff_of_false List.not_mem_nil fun h => hadmits.2 ?_
        have hlisted := h.mem_values hadmits.1
        rw [h.eq_pinned fixed rfl] at hlisted
        exact List.mem_map.1 hlisted

theorem pairwise_clockValues {field : Field} {values : List Int8}
    (h : field.Normal Int8.toInt values) (pinned : Option Int) (anchored : Int) :
    (clockValues pinned values anchored).Pairwise (· < ·) := by
  unfold clockValues
  split
  · split
    · exact List.pairwise_singleton _ _
    · exact List.Pairwise.nil
  · split
    · exact List.pairwise_singleton _ _
    · exact List.pairwise_map.2 h.1

namespace Rule

/-- What a rule without positions says about a date-time of a period. -/
structure Matches (rule : Rule) (period : Period) (t : DateTime) : Prop where
  whole : t.nano = 0
  within : ∃ first last, period.firstDay = .ok first ∧ period.lastDay = .ok last ∧
    first ≤ t.date ∧ t.date ≤ last
  day : rule.MatchesDay period t.date
  hour : ClockMatches period.pinnedHour? rule.hours rule.anchor.hour t.hour
  minute : ClockMatches period.pinnedMinute? rule.minutes rule.anchor.minute t.minute
  second :
    ClockMatches period.pinnedSecond? rule.seconds rule.anchor.secondOfMinute t.secondOfMinute

theorem mem_crossClock_iff {rule : Rule} (hrule : rule.Valid) {period : Period}
    {days : List Date} {t : DateTime} :
    t ∈ rule.crossClock period days ↔ t.nano = 0 ∧ t.date ∈ days ∧
      ClockMatches period.pinnedHour? rule.hours rule.anchor.hour t.hour ∧
      ClockMatches period.pinnedMinute? rule.minutes rule.anchor.minute t.minute ∧
      ClockMatches period.pinnedSecond? rule.seconds rule.anchor.secondOfMinute
        t.secondOfMinute := by
  simp only [crossClock, List.mem_flatMap, List.mem_filterMap, DateTime.ofClock?_eq_some_iff,
    mem_clockValues_iff hrule.hours, mem_clockValues_iff hrule.minutes,
    mem_clockValues_iff hrule.seconds]
  constructor
  · rintro ⟨day, hday, hour, hhour, minute, hminute, second, hsecond, rfl, rfl, rfl, rfl, hnano⟩
    exact ⟨hnano, hday, hhour, hminute, hsecond⟩
  · rintro ⟨hnano, hday, hhour, hminute, hsecond⟩
    exact ⟨_, hday, _, hhour, _, hminute, _, hsecond, rfl, rfl, rfl, rfl, hnano⟩

/-- Days that ascend, crossed with the readings of the clock, make date-times that ascend. -/
theorem pairwise_crossClock {rule : Rule} (hrule : rule.Valid) (period : Period)
    {days : List Date} (hdays : days.Pairwise (· < ·)) :
    (rule.crossClock period days).Pairwise (· < ·) := by
  unfold crossClock
  simp only [List.pairwise_flatMap, List.mem_flatMap, List.pairwise_filterMap,
    List.mem_filterMap, DateTime.ofClock?_eq_some_iff]
  refine ⟨fun day _ => ⟨fun hour _ => ⟨fun minute _ => ?_, ?_⟩, ?_⟩, ?_⟩
  · refine (pairwise_clockValues hrule.seconds _ _).imp fun hlt t ht u hu => ?_
    obtain ⟨htdate, hthour, htminute, rfl, -⟩ := ht
    obtain ⟨hudate, huhour, huminute, rfl, -⟩ := hu
    exact DateTime.lt_of_second_lt (htdate.trans hudate.symm) (hthour.trans huhour.symm)
      (htminute.trans huminute.symm) hlt
  · refine (pairwise_clockValues hrule.minutes _ _).imp fun hlt t ht u hu => ?_
    obtain ⟨_, _, htdate, hthour, rfl, -, -⟩ := ht
    obtain ⟨_, _, hudate, huhour, rfl, -, -⟩ := hu
    exact DateTime.lt_of_minute_lt (htdate.trans hudate.symm) (hthour.trans huhour.symm) hlt
  · refine (pairwise_clockValues hrule.hours _ _).imp fun hlt t ht u hu => ?_
    obtain ⟨_, _, _, _, htdate, rfl, -, -, -⟩ := ht
    obtain ⟨_, _, _, _, hudate, rfl, -, -, -⟩ := hu
    exact DateTime.lt_of_hour_lt (htdate.trans hudate.symm) hlt
  · refine hdays.imp fun hlt t ht u hu => ?_
    obtain ⟨_, _, _, _, _, _, rfl, -, -, -, -⟩ := ht
    obtain ⟨_, _, _, _, _, _, rfl, -, -, -, -⟩ := hu
    exact DateTime.lt_of_date_lt hlt

/-- A part of the clock is accepted by its field, wherever it comes from. -/
theorem accepts_of_clockMatches {field : Field} {pinned : Option Int} {values : List Int8}
    {anchored part : Int} (hpinned : ∀ fixed, pinned = some fixed → field.accepts fixed = true)
    (hvalues : field.Normal Int8.toInt values) (hanchored : field.accepts anchored = true)
    (h : ClockMatches pinned values anchored part) : field.accepts part = true := by
  by_cases hempty : values = []
  · cases hfixed : pinned with
    | none => rwa [h.eq_anchored hfixed hempty]
    | some fixed =>
        rw [h.eq_pinned fixed hfixed]
        exact hpinned fixed hfixed
  · obtain ⟨value, hvalue, rfl⟩ := List.mem_map.1 (h.mem_values hempty)
    exact hvalues.2 value hvalue

theorem accepts_hour {rule : Rule} (hrule : rule.Valid) {period : Period} {hour : Int}
    (h : ClockMatches period.pinnedHour? rule.hours rule.anchor.hour hour) :
    Field.hour.accepts hour = true := by
  have haccepts : ∀ t : DateTime, Field.hour.accepts t.hour = true := fun t => by
    simp [Field.accepts, t.clock_bounds]
  refine accepts_of_clockMatches (fun fixed hfixed => ?_) hrule.hours (haccepts _) h
  cases period <;> cases hfixed <;> exact haccepts _

theorem accepts_minute {rule : Rule} (hrule : rule.Valid) {period : Period} {minute : Int}
    (h : ClockMatches period.pinnedMinute? rule.minutes rule.anchor.minute minute) :
    Field.minute.accepts minute = true := by
  have haccepts : ∀ t : DateTime, Field.minute.accepts t.minute = true := fun t => by
    simp [Field.accepts, t.clock_bounds]
  refine accepts_of_clockMatches (fun fixed hfixed => ?_) hrule.minutes (haccepts _) h
  cases period <;> cases hfixed <;> exact haccepts _

theorem accepts_second {rule : Rule} (hrule : rule.Valid) {period : Period} {second : Int}
    (h : ClockMatches period.pinnedSecond? rule.seconds rule.anchor.secondOfMinute second) :
    Field.second.accepts second = true := by
  have haccepts : ∀ t : DateTime, Field.second.accepts t.secondOfMinute = true := fun t => by
    simp [Field.accepts, t.clock_bounds]
  refine accepts_of_clockMatches (fun fixed hfixed => ?_) hrule.seconds (haccepts _) h
  cases period <;> cases hfixed
  exact haccepts _

/-- Every combination of a day and a reading of the clock is a candidate: none is no reading. -/
theorem length_crossClock {rule : Rule} (hrule : rule.Valid) (period : Period)
    (days : List Date) :
    (rule.crossClock period days).length = days.length *
      ((clockValues period.pinnedHour? rule.hours rule.anchor.hour).length *
        ((clockValues period.pinnedMinute? rule.minutes rule.anchor.minute).length *
          (clockValues period.pinnedSecond? rule.seconds rule.anchor.secondOfMinute).length)) := by
  refine length_flatMap_of_forall fun day _ => ?_
  refine length_flatMap_of_forall fun hour hhour => ?_
  refine length_flatMap_of_forall fun minute hminute => ?_
  rw [List.length_filterMap_eq_countP, List.countP_eq_length]
  intro second hsecond
  have hhour := accepts_hour hrule ((mem_clockValues_iff hrule.hours).1 hhour)
  have hminute := accepts_minute hrule ((mem_clockValues_iff hrule.minutes).1 hminute)
  have hsecond := accepts_second hrule ((mem_clockValues_iff hrule.seconds).1 hsecond)
  simp only [Field.accepts, Bool.and_eq_true, decide_eq_true_eq] at hhour hminute hsecond
  rw [DateTime.ofClock?, dif_pos ⟨hhour, hminute, hsecond, by decide⟩]
  rfl

theorem crossClock_spec {rule : Rule} (hrule : rule.Valid) {period : Period}
    (hperiod : period.Valid) :
    ∃ days, rule.selectDays period = .ok days ∧
      (rule.crossClock period days).Pairwise (· < ·) ∧
      ∀ t, t ∈ rule.crossClock period days ↔ rule.Matches period t := by
  obtain ⟨days, hdays, hascending, hmem⟩ := selectDays_spec hrule hperiod
  refine ⟨days, hdays, pairwise_crossClock hrule period hascending, fun t => ?_⟩
  obtain ⟨first, hfirst, hfirstNumber⟩ := Period.exists_firstDay hperiod
  obtain ⟨last, hlast, hlastNumber⟩ := Period.exists_lastDay hperiod
  rw [mem_crossClock_iff hrule, hmem, ← hfirstNumber, ← hlastNumber, ← Date.le_iff, ← Date.le_iff]
  constructor
  · rintro ⟨hnano, ⟨hin, hday⟩, hhour, hminute, hsecond⟩
    exact ⟨hnano, ⟨first, last, hfirst, hlast, hin.1, hin.2⟩, hday, hhour, hminute, hsecond⟩
  · rintro ⟨hnano, ⟨first', last', hfirst', hlast', hle, hle'⟩, hday, hhour, hminute, hsecond⟩
    rw [hfirst] at hfirst'
    rw [hlast] at hlast'
    cases hfirst'
    cases hlast'
    exact ⟨hnano, ⟨⟨hle, hle'⟩, hday⟩, hhour, hminute, hsecond⟩

theorem expand_eq_ok {rule : Rule} {period : Period} {days : List Date}
    (h : rule.selectDays period = .ok days) :
    rule.expand period = .ok (rule.selectPositions (rule.crossClock period days)) := by
  rw [expand, h, ok_bind]
  rfl

theorem selectPositions_of_eq_nil {rule : Rule} (h : rule.positions = [])
    (candidates : List DateTime) : rule.selectPositions candidates = candidates := by
  rw [selectPositions, h, List.isEmpty_nil, if_pos rfl]

/-- A built rule without positions expands every period that the calendar has, to the date-times
of the period that match, in ascending order. -/
theorem expand_matches {draft : Draft} {rule : Rule} {period : Period}
    (hbuild : draft.build = .ok rule) (hpositions : rule.positions = [])
    (hperiod : period.Valid) :
    ∃ found, rule.expand period = .ok found ∧ found.Pairwise (· < ·) ∧
      ∀ t, t ∈ found ↔ rule.Matches period t := by
  obtain ⟨days, hdays, hascending, hmem⟩ := crossClock_spec (valid_of_build hbuild) hperiod
  refine ⟨rule.crossClock period days, ?_, hascending, hmem⟩
  rw [expand_eq_ok hdays, selectPositions_of_eq_nil hpositions]

/-- The fourth Thursday of November, at nine o'clock, from September 1997 on. -/
def thanksgiving : Rule where
  frequency := .yearly
  interval := 1
  interval_pos := Nat.one_pos
  anchor := .ofDate ((Date.ofFields? 1997 9 2).getD .min)
  limit := none
  months := [11]
  monthDays := []
  yearDays := []
  weekNumbers := []
  weekdays := [⟨some 4, .thursday⟩]
  hours := [9]
  minutes := []
  seconds := []
  positions := []
  weekStart := .monday

theorem build_thanksgiving : thanksgiving.draft.build = .ok thanksgiving :=
  rfl

theorem expand_matches_thanksgiving :
    thanksgiving.draft.build = .ok thanksgiving ∧ thanksgiving.positions = [] ∧
      (Period.year 1997).Valid ∧
      ∃ found, thanksgiving.expand (.year 1997) = .ok found ∧ found.Pairwise (· < ·) ∧
        ∀ t, t ∈ found ↔ thanksgiving.Matches (.year 1997) t :=
  ⟨build_thanksgiving, rfl, rfl, expand_matches build_thanksgiving rfl rfl⟩

end Rule

end Recurrence
