import Recurrence.Proofs.Grid
import Recurrence.Proofs.Sequence

/-!
# Rules that name nothing

A rule without lists leaves everything to its anchor and its frequency: it recurs so
many units after the anchor, and so many again. `DateTime.later?` says what that
means without periods. Units up to the week are lengths of time and are added. A
month or a year later is the same day of the month at the same time, and where the
calendar has no such day there is nothing.

The walk goes another way: it cuts the anchor down to the period around it, steps
from period to period, and puts back from the anchor what was cut off. That the two
ways meet is `exists_matches_iff`, one moment and one number of units at a time. For
units of fixed length it is a fact about division with remainder; for months and
years it is that the fields of a date name it. The list follows, since both ascend.
-/

namespace Recurrence

namespace Date

theorem ofFields?_eq_some_iff {year month day : Int} {date : Date} :
    ofFields? year month day = some date ↔
      date.year = year ∧ date.month = month ∧ date.day = day := by
  constructor
  · exact fields_of_ofFields?
  · rintro ⟨rfl, rfl, rfl⟩
    exact date.ofFields?_fields

end Date

namespace DateTime

/-- The same reading of the clock on another date. -/
def onDate (t : DateTime) (date : Date) : DateTime where
  second := date.number * 86400 + t.second % 86400
  nano := t.nano
  first_le := by have := date.first_le; omega
  lt_end := by have := date.le_last; omega
  nano_lt := t.nano_lt

/-- The date-time so many units of a frequency later, if the calendar has it: up to weeks units
are lengths of time, and months and years keep the day of the month. -/
def later? (t : DateTime) (frequency : Frequency) (units : Nat) : Option DateTime :=
  match frequency with
  | .secondly => t.addSeconds? units
  | .minutely => t.addSeconds? (60 * units)
  | .hourly => t.addSeconds? (3600 * units)
  | .daily => t.addSeconds? (86400 * units)
  | .weekly => t.addSeconds? (7 * 86400 * units)
  | .monthly =>
      let index := Period.monthIndex t.date.year t.date.month + units
      (Date.ofFields? (index / 12) (index % 12 + 1) t.date.day).map t.onDate
  | .yearly => (Date.ofFields? (t.date.year + units) t.date.month t.date.day).map t.onDate

theorem addSeconds?_eq_some_iff {t later : DateTime} {seconds : Int} :
    t.addSeconds? seconds = some later ↔
      later.second = t.second + seconds ∧ later.nano = t.nano := by
  constructor
  · intro h
    exact ⟨Period.second_of_addSeconds? h, Period.nano_of_addSeconds? h⟩
  · rintro ⟨hsecond, hnano⟩
    exact addSeconds?_eq_some hsecond.symm hnano.symm

theorem map_onDate_eq_some_iff {t later : DateTime} {year month day : Int} :
    (Date.ofFields? year month day).map t.onDate = some later ↔
      (later.date.year = year ∧ later.date.month = month ∧ later.date.day = day) ∧
        later.second % 86400 = t.second % 86400 ∧ later.nano = t.nano := by
  rw [Option.map_eq_some_iff]
  simp only [← Date.ofFields?_eq_some_iff]
  constructor
  · rintro ⟨date, hdate, rfl⟩
    have hsame : (t.onDate date).date = date := by
      refine Date.ext_number ?_
      show (date.number * 86400 + t.second % 86400) / 86400 = date.number
      omega
    refine ⟨by rw [hsame]; exact hdate, ?_, rfl⟩
    show (date.number * 86400 + t.second % 86400) % 86400 = t.second % 86400
    omega
  · rintro ⟨hdate, hclock, hnano⟩
    refine ⟨later.date, hdate, ext_fields ?_ hnano.symm⟩
    have hnumber := later.number_date
    show later.date.number * 86400 + t.second % 86400 = later.second
    omega

end DateTime

namespace Rule

/-- A rule without lists. -/
structure Plain (rule : Rule) : Prop where
  months : rule.months = []
  monthDays : rule.monthDays = []
  yearDays : rule.yearDays = []
  weekNumbers : rule.weekNumbers = []
  weekdays : rule.weekdays = []
  hours : rule.hours = []
  minutes : rule.minutes = []
  seconds : rule.seconds = []
  positions : rule.positions = []

/-- A moment has from the anchor what is shorter than the unit of the rule. -/
def Resembles (rule : Rule) (t : DateTime) : Prop :=
  (rule.frequency = .yearly → t.date.month = rule.anchor.date.month) ∧
  (rule.frequency = .yearly ∨ rule.frequency = .monthly → t.date.day = rule.anchor.date.day) ∧
  (rule.frequency = .weekly → t.date.weekday = rule.anchor.date.weekday) ∧
  (rule.firstPeriod.pinnedHour? = none → t.hour = rule.anchor.hour) ∧
  (rule.firstPeriod.pinnedMinute? = none → t.minute = rule.anchor.minute) ∧
  (rule.firstPeriod.pinnedSecond? = none → t.secondOfMinute = rule.anchor.secondOfMinute)

variable {rule : Rule} {t : DateTime}

theorem matchesDay_iff_of_plain (h : rule.Plain) {period : Period} {day : Date} :
    rule.MatchesDay period day ↔
      (rule.frequency = .yearly → day.month = rule.anchor.date.month) ∧
      (rule.frequency = .yearly ∨ rule.frequency = .monthly → day.day = rule.anchor.date.day) ∧
      (rule.frequency = .weekly → day.weekday = rule.anchor.date.weekday) := by
  have hnone : rule.NoDayRules := ⟨h.weekNumbers, h.yearDays, h.monthDays, h.weekdays⟩
  constructor
  · intro hday
    exact ⟨fun hyearly => hday.anchorMonth h.months hyearly hnone,
      fun hfrequency => hday.anchorDay hfrequency hnone,
      fun hweekly => hday.anchorWeekday hweekly hnone⟩
  · rintro ⟨hmonth, hday, hweekday⟩
    exact {
      month := fun hne => absurd h.months hne
      anchorMonth := fun _ hyearly _ => hmonth hyearly
      week := fun hne => absurd h.weekNumbers hne
      yearDay := fun hne => absurd h.yearDays hne
      monthDay := fun hne => absurd h.monthDays hne
      anchorDay := fun hfrequency _ => hday hfrequency
      weekday := fun hne => absurd h.weekdays hne
      anchorWeekday := fun hweekly _ => hweekday hweekly }

theorem clockMatches_iff_of_eq_nil {pinned : Option Int} {values : List Int8}
    {anchored part : Int} (hempty : values = []) :
    ClockMatches pinned values anchored part ↔
      (∀ fixed, pinned = some fixed → part = fixed) ∧ (pinned = none → part = anchored) := by
  constructor
  · intro h
    exact ⟨h.eq_pinned, fun hnone => h.eq_anchored hnone hempty⟩
  · rintro ⟨hpinned, hanchored⟩
    exact ⟨hpinned, fun hne => absurd hempty hne, fun hnone _ => hanchored hnone⟩

/-- Which parts of the clock a period fixes depends on its unit alone. -/
theorem pinned_eq_none_iff {p q : Period} (h : p.frequency = q.frequency) :
    (p.pinnedHour? = none ↔ q.pinnedHour? = none) ∧
      (p.pinnedMinute? = none ↔ q.pinnedMinute? = none) ∧
      (p.pinnedSecond? = none ↔ q.pinnedSecond? = none) := by
  cases p <;> cases q <;> cases h <;>
    simp [Period.pinnedHour?, Period.pinnedMinute?, Period.pinnedSecond?]

theorem matches_iff_of_plain (h : rule.Plain) {period : Period}
    (hfrequency : period.frequency = rule.frequency) :
    rule.Matches period t ↔ period.Contains t ∧ t.nano = 0 ∧ rule.Resembles t := by
  obtain ⟨hhour, hminute, hsecond⟩ := pinned_eq_none_iff
    (hfrequency.trans (Period.frequency_containing rule.frequency rule.anchor rule.weekStart).symm)
  unfold Resembles firstPeriod
  rw [← hhour, ← hminute, ← hsecond]
  constructor
  · intro hmatches
    obtain ⟨hmonth, hday, hweekday⟩ := (matchesDay_iff_of_plain h).1 hmatches.day
    exact ⟨hmatches.contains, hmatches.whole, hmonth, hday, hweekday,
      ((clockMatches_iff_of_eq_nil h.hours).1 hmatches.hour).2,
      ((clockMatches_iff_of_eq_nil h.minutes).1 hmatches.minute).2,
      ((clockMatches_iff_of_eq_nil h.seconds).1 hmatches.second).2⟩
  · rintro ⟨hcontains, hwhole, hmonth, hday, hweekday, hhour, hminute, hsecond⟩
    exact {
      whole := hwhole
      within := exists_mem_days_iff.1 hcontains.day
      day := (matchesDay_iff_of_plain h).2 ⟨hmonth, hday, hweekday⟩
      hour := (clockMatches_iff_of_eq_nil h.hours).2 ⟨hcontains.hour, hhour⟩
      minute := (clockMatches_iff_of_eq_nil h.minutes).2 ⟨hcontains.minute, hminute⟩
      second := (clockMatches_iff_of_eq_nil h.seconds).2 ⟨hcontains.second, hsecond⟩ }

/-! ## One moment -/

theorem unitsTo_year_iff {y : Int} {units : Nat} (h : (Period.year y).Aligned) :
    (Period.year y).opens ≤ t.second ∧ (Period.year y).unitsTo t = units ↔
      t.date.year = y + units := by
  constructor
  · rintro ⟨hopens, hunits⟩
    have hle := Period.year_le_of_opens_le hopens
    rw [Period.unitsTo] at hunits
    omega
  · intro hyear
    exact (Period.exists_advance_contains_iff h).1 ⟨_,
      Period.advance_year t.date.supportsYear_year hyear.symm,
      Period.contains_containing .yearly t .monday⟩

theorem unitsTo_month_iff {y m : Int} {units : Nat} (h : (Period.month y m).Aligned) :
    (Period.month y m).opens ≤ t.second ∧ (Period.month y m).unitsTo t = units ↔
      Period.monthIndex t.date.year t.date.month = Period.monthIndex y m + units := by
  constructor
  · rintro ⟨hopens, hunits⟩
    have hle := Period.monthIndex_le_of_opens_le h.2 hopens
    rw [Period.unitsTo] at hunits
    omega
  · intro hindex
    exact (Period.exists_advance_contains_iff h).1 ⟨_,
      Period.advance_month (Period.valid_month t.date) hindex.symm,
      Period.contains_containing .monthly t .monday⟩

theorem later?_eq_some_iff (hrule : rule.Valid) {units : Nat} :
    rule.anchor.later? rule.frequency units = some t ↔
      (rule.firstPeriod.opens ≤ t.second ∧ rule.firstPeriod.unitsTo t = units) ∧
        t.nano = 0 ∧ rule.Resembles t := by
  have hwhole := hrule.anchor_whole
  have hmonth := t.date.fields_valid
  have hanchor := rule.anchor.number_date
  have hdate := t.number_date
  unfold Resembles firstPeriod
  cases rule.frequency with
  | yearly =>
      simp only [DateTime.later?, DateTime.map_onDate_eq_some_iff, Period.containing,
        unitsTo_year_iff rule.anchor.date.supportsYear_year, Period.pinnedHour?,
        Period.pinnedMinute?, Period.pinnedSecond?, DateTime.hour, DateTime.minute,
        DateTime.secondOfMinute, reduceCtorEq, false_implies, forall_const, or_false, true_and]
      omega
  | monthly =>
      simp only [DateTime.later?, DateTime.map_onDate_eq_some_iff, Period.containing,
        unitsTo_month_iff (Period.valid_month rule.anchor.date), Period.monthIndex,
        Period.pinnedHour?, Period.pinnedMinute?, Period.pinnedSecond?, DateTime.hour,
        DateTime.minute, DateTime.secondOfMinute, reduceCtorEq, false_implies, forall_const,
        false_or, true_and]
      omega
  | weekly =>
      have hback := Period.daysAfter_bounds rule.anchor.date.weekday rule.weekStart
      obtain ⟨first, hfirst, hnumber⟩ :=
        Period.exists_containing_weekly rule.anchor rule.weekStart
      have hfirst_le := rule.anchor.date.first_le
      simp only [Date.min] at hnumber
      simp only [DateTime.later?, DateTime.addSeconds?_eq_some_iff, hfirst, Period.opens,
        Period.firstNumber, Period.unitsTo, Period.pinnedHour?, Period.pinnedMinute?,
        Period.pinnedSecond?, DateTime.hour, DateTime.minute, DateTime.secondOfMinute,
        Date.weekday_eq_weekday_iff, reduceCtorEq, false_implies, forall_const, or_self, true_and]
      omega
  | daily | hourly | minutely | secondly =>
      simp only [DateTime.later?, DateTime.addSeconds?_eq_some_iff, Period.containing,
        Period.opens, Period.firstNumber, Period.unitsTo, DateTime.startOfHour,
        DateTime.startOfMinute, DateTime.wholeSecond, Period.pinnedHour?, Period.pinnedMinute?,
        Period.pinnedSecond?, DateTime.hour, DateTime.minute, DateTime.secondOfMinute,
        DateTime.number_date, reduceCtorEq, false_implies, forall_const, or_self, true_and,
        and_true]
      omega

/-- A moment is so many units after the anchor when it matches in the period so many units after
the first one. -/
theorem exists_matches_iff (hrule : rule.Valid) (hplain : rule.Plain) {units : Nat} :
    rule.anchor.later? rule.frequency units = some t ↔
      ∃ period, rule.firstPeriod.advance units = some period ∧ rule.Matches period t := by
  rw [later?_eq_some_iff hrule, ← Period.exists_advance_contains_iff rule.aligned_firstPeriod,
    ← exists_and_right]
  refine exists_congr fun period => ?_
  rw [and_assoc]
  exact and_congr_right fun hadvance =>
    (matches_iff_of_plain hplain (frequency_of_advance_firstPeriod hadvance)).symm

/-! ## The sequence -/

theorem later?_zero (hrule : rule.Valid) :
    rule.anchor.later? rule.frequency 0 = some rule.anchor := by
  have hfirst := rule.aligned_firstPeriod
  have hcontains := Period.contains_containing rule.frequency rule.anchor rule.weekStart
  refine (later?_eq_some_iff hrule).2 ⟨?_, hrule.anchor_whole, ?_⟩
  · exact (Period.exists_advance_contains_iff hfirst).1
      ⟨_, Period.advance_zero hfirst.valid, hcontains⟩
  · exact ⟨fun _ => rfl, fun _ => rfl, fun _ => rfl, fun _ => rfl, fun _ => rfl, fun _ => rfl⟩

theorem lt_of_later? (hrule : rule.Valid) {j k : Nat} (hjk : j < k) {u : DateTime}
    (ht : rule.anchor.later? rule.frequency j = some t)
    (hu : rule.anchor.later? rule.frequency k = some u) : t < u := by
  have hfirst := rule.aligned_firstPeriod
  obtain ⟨p, hp, hpt⟩ := (Period.exists_advance_contains_iff hfirst).2
    ((later?_eq_some_iff hrule).1 ht).1
  obtain ⟨q, hq, hqu⟩ := (Period.exists_advance_contains_iff hfirst).2
    ((later?_eq_some_iff hrule).1 hu).1
  obtain ⟨steps, rfl⟩ : ∃ steps, k = j + steps := ⟨k - j, by omega⟩
  have hpaligned := Period.aligned_of_advance hfirst hp
  have hqaligned := Period.aligned_of_advance hfirst hq
  rw [Period.advance_add hfirst.valid, hp, Option.bind_some] at hq
  have hcloses := Period.closes_le_opens_of_advance hpaligned (by omega) hq
  rw [Period.contains_iff hpaligned] at hpt
  rw [Period.contains_iff hqaligned] at hqu
  rw [DateTime.lt_iff]
  omega

theorem anchor_le_of_later? (hrule : rule.Valid) {units : Nat}
    (h : rule.anchor.later? rule.frequency units = some t) : rule.anchor ≤ t := by
  rcases Nat.eq_zero_or_pos units with rfl | hpos
  · rw [later?_zero hrule, Option.some_inj] at h
    exact le_of_eq h
  · exact le_of_lt (lt_of_later? hrule hpos (later?_zero hrule) h)

/-- The date-time with which a rule without lists recurs after so many intervals. -/
def recurrence? (rule : Rule) (k : Nat) : Option DateTime :=
  rule.anchor.later? rule.frequency (k * rule.interval.toNat)

theorem mem_unlimited_iff_of_plain (hrule : rule.Valid) (hplain : rule.Plain) :
    t ∈ rule.unlimited ↔ ∃ k, rule.recurrence? k = some t := by
  have hperiods : ∀ period, period ∈ (Walk.ofRule rule).periods ↔
      ∃ k, rule.firstPeriod.advance (k * rule.interval.toNat) = some period :=
    fun _ => Walk.mem_periods_iff (Walk.aligned_ofRule rule) rfl
  rw [mem_unlimited_iff hrule hplain.positions]
  constructor
  · rintro ⟨-, period, hperiod, hmatches⟩
    obtain ⟨k, hadvance⟩ := (hperiods period).1 hperiod
    exact ⟨k, (exists_matches_iff hrule hplain).2 ⟨period, hadvance, hmatches⟩⟩
  · rintro ⟨k, hk⟩
    obtain ⟨period, hadvance, hmatches⟩ := (exists_matches_iff hrule hplain).1 hk
    exact ⟨anchor_le_of_later? hrule hk, period, (hperiods period).2 ⟨k, hadvance⟩, hmatches⟩

theorem recurrence?_eq_none_of_le (hrule : rule.Valid) (hplain : rule.Plain) {k : Nat}
    (hk : (Walk.ofRule rule).periods.length ≤ k) : rule.recurrence? k = none := by
  refine Option.eq_none_iff_forall_ne_some.2 fun t ht => ?_
  obtain ⟨period, hadvance, -⟩ := (exists_matches_iff hrule hplain).1 ht
  rw [← getElem?_periods_ofRule, List.getElem?_eq_none hk] at hadvance
  cases hadvance

theorem unlimited_eq_of_plain (hrule : rule.Valid) (hplain : rule.Plain) :
    rule.unlimited =
      (List.range (Walk.ofRule rule).periods.length).filterMap rule.recurrence? := by
  refine (pairwise_unlimited hrule).eq_of_mem_iff ?_ fun t => ?_
  · rw [List.pairwise_filterMap]
    refine List.pairwise_lt_range.imp fun {j k} hjk t ht u hu => ?_
    exact lt_of_later? hrule (Nat.mul_lt_mul_of_pos_right hjk rule.interval_pos) ht hu
  · rw [mem_unlimited_iff_of_plain hrule hplain, List.mem_filterMap]
    refine exists_congr fun k => ⟨fun hk => ⟨?_, hk⟩, fun hk => hk.2⟩
    by_contra hout
    rw [List.mem_range, not_lt] at hout
    rw [recurrence?_eq_none_of_le hrule hplain hout] at hk
    cases hk

/-- What begins without a gap and is gathered far enough is gathered whole. -/
theorem getElem?_filterMap_range {α : Type} {f : Nat → Option α} {n : Nat}
    (hend : ∀ k, n ≤ k → f k = none) (hgap : ∀ j k, j ≤ k → f j = none → f k = none) (k : Nat) :
    ((List.range n).filterMap f)[k]? = f k := by
  induction n generalizing f k with
  | zero =>
      rw [hend k (Nat.zero_le k)]
      rfl
  | succ n ih =>
      rw [List.range_succ_eq_map]
      cases hzero : f 0 with
      | none =>
          have hnone : ∀ j, f j = none := fun j => hgap 0 j (Nat.zero_le j) hzero
          rw [List.filterMap_eq_nil_iff.2 fun j _ => hnone j, hnone k]
          rfl
      | some a =>
          rw [List.filterMap_cons_some hzero, List.filterMap_map]
          cases k with
          | zero => rw [List.getElem?_cons_zero, hzero]
          | succ k =>
              rw [List.getElem?_cons_succ]
              exact ih (fun j hj => hend (j + 1) (Nat.succ_le_succ hj))
                (fun i j hij => hgap (i + 1) (j + 1) (Nat.succ_le_succ hij)) k

/-- Of units with a fixed length, fewer lead to a moment of the calendar if more do. -/
theorem later?_eq_none_of_le {a : DateTime} {frequency : Frequency}
    (hmonthly : frequency ≠ .monthly) (hyearly : frequency ≠ .yearly) {j k : Nat} (hjk : j ≤ k)
    (h : a.later? frequency j = none) : a.later? frequency k = none := by
  have hfirst := a.first_le
  have hseconds : ∀ {s s' : Int}, 0 ≤ s → s ≤ s' → a.addSeconds? s = none →
      a.addSeconds? s' = none := by
    intro s s' hs hle hnone
    unfold DateTime.addSeconds? at hnone ⊢
    split at hnone
    · cases hnone
    · rw [dif_neg (by omega)]
  cases frequency with
  | monthly => exact absurd rfl hmonthly
  | yearly => exact absurd rfl hyearly
  | weekly | daily | hourly | minutely | secondly =>
      exact hseconds (by omega) (by omega) h

/-- A rule without lists and without limit recurs with its anchor and at whole intervals after it
until the calendar ends, as far as there are such moments; a unit of fixed length leaves none
out. -/
theorem toList_cursor_plain {draft : Draft} (hbuild : draft.build = .ok rule)
    (hlimit : rule.limit = none) (hplain : rule.Plain) :
    ∃ all n, rule.cursor.toList = .ok all ∧
      all = (List.range n).filterMap rule.recurrence? ∧
      (∀ k, n ≤ k → rule.recurrence? k = none) ∧
      (rule.frequency ≠ .monthly → rule.frequency ≠ .yearly →
        ∀ k : Nat, all[k]? = rule.recurrence? k) := by
  have hrule := valid_of_build hbuild
  have hend : ∀ k, (Walk.ofRule rule).periods.length ≤ k → rule.recurrence? k = none :=
    fun _ hk => recurrence?_eq_none_of_le hrule hplain hk
  refine ⟨rule.unlimited, (Walk.ofRule rule).periods.length, ?_, unlimited_eq_of_plain hrule hplain,
    hend, fun hmonthly hyearly k => ?_⟩
  · rw [toList_cursor hrule, occurrences_of_limit_eq_none hlimit]
  · rw [unlimited_eq_of_plain hrule hplain]
    refine getElem?_filterMap_range hend (fun i j hij => ?_) k
    exact later?_eq_none_of_le hmonthly hyearly (Nat.mul_le_mul_right _ hij)

/-- Each February 29 from 2024 on. -/
def leapDays : Rule where
  frequency := .yearly
  interval := 1
  interval_pos := Nat.one_pos
  anchor := .ofDate ((Date.ofFields? 2024 2 29).getD .min)
  limit := none
  months := []
  monthDays := []
  yearDays := []
  weekNumbers := []
  weekdays := []
  hours := []
  minutes := []
  seconds := []
  positions := []
  weekStart := .monday

theorem plain_leapDays : leapDays.Plain :=
  ⟨rfl, rfl, rfl, rfl, rfl, rfl, rfl, rfl, rfl⟩

theorem toList_cursor_leapDays :
    leapDays.draft.build = .ok leapDays ∧ leapDays.limit = none ∧ leapDays.Plain ∧
      leapDays.recurrence? 1 = none ∧ (leapDays.recurrence? 4).isSome ∧
      ∃ all n, leapDays.cursor.toList = .ok all ∧
        all = (List.range n).filterMap leapDays.recurrence? ∧
        ∀ k, n ≤ k → leapDays.recurrence? k = none := by
  have hbuild : leapDays.draft.build = .ok leapDays := rfl
  obtain ⟨all, n, hall, hfilter, hend, -⟩ := toList_cursor_plain hbuild rfl plain_leapDays
  exact ⟨hbuild, rfl, plain_leapDays, by decide +kernel, by decide +kernel, all, n, hall,
    hfilter, hend⟩

end Rule

end Recurrence
