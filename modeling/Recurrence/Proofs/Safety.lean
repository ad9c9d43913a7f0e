import Recurrence.FixedWidth.Cursor
import Recurrence.Proofs.Calls
import Recurrence.Proofs.FixedWidth

/-!
# A built rule runs on numbers of fixed width

`next_in_fixed_width` is the statement: whatever draft a rule was built from, and
however often its cursor has been called, the next call made on numbers of fixed width
does what the exact one does. It asks the calendar nothing that has no answer, it puts
no date or time together that does not exist, and no result outgrows its width.

An expansion is taken stage by stage along `Follows`. What bounds its numbers is that a
rule names no weekday further off than an ordinal of eight bits says, that a period has
at most 366 days, and that a day has as many clock readings as it has seconds. The two
counters of a cursor run on from call to call. `Walk.Counted` bounds the periods
visited by those that are left, and the occurrences handed out are bounded by the
seconds of the calendar.
-/

namespace Recurrence

namespace FixedWidth

variable {rule : Rule} {period : Period}

/-! ## Days -/

theorem follows_selects (entry : WeekdayEntry) (first last day : Date) :
    Follows (selects entry first last day) (entry.selects first last day) := by
  refine Follows.ite (fun _ => ?_) fun _ => Follows.of_eq rfl
  cases entry.ordinal with
  | none => exact Follows.of_eq rfl
  | some ordinal =>
      have hlow := ordinal.le_toInt
      have hhigh := ordinal.toInt_lt
      have hnth := follows_nthWeekday first last entry.weekday
        (show -128 ≤ ordinal.toInt ∧ ordinal.toInt ≤ 127 by omega)
      exact Follows.bind hnth fun found _ => Follows.of_eq rfl

theorem follows_keepsWeek (rule : Rule) (day : Date) :
    Follows (keepsWeek rule day) (rule.keepsWeek day) := by
  refine Follows.ite (fun _ => Follows.of_eq rfl) fun _ => ?_
  refine Follows.bind (Follows.ask _) fun weeks hweeks => Follows.of_eq ?_
  have hweek := Calendar.week_bounds day
  have hyear := Calendar.supportsYear_ofDate day
  rw [Calendar.isoWeeksInYear_eq hyear] at hweeks
  cases hweeks
  have hbounds := Calendar.weeksInYear_bounds (IsoWeek.ofDate day).year
  rw [Width.fit_int8 (by omega), ok_bind, Width.fit_int8 (by omega)]
  rfl

theorem follows_keepsYearDay (rule : Rule) (day : Date) :
    Follows (keepsYearDay rule day) (rule.keepsYearDay day) := by
  refine Follows.ite (fun _ => Follows.of_eq rfl) fun _ => Follows.anyM fun index _ => ?_
  exact Follows.bind (follows_resolveYearDay day.year index.toInt) fun found _ =>
    Follows.of_eq rfl

theorem follows_keepsMonthDay (rule : Rule) (day : Date) :
    Follows (keepsMonthDay rule day) (rule.keepsMonthDay day) := by
  refine Follows.ite (fun _ => Follows.of_eq rfl) fun _ => Follows.anyM fun index _ => ?_
  exact Follows.bind (follows_resolveMonthDay day.year day.month index.toInt) fun found _ =>
    Follows.of_eq rfl

theorem follows_keepsWeekday (rule : Rule) (period : Period) (day : Date) :
    Follows (keepsWeekday rule period day) (rule.keepsWeekday period day) := by
  refine Follows.ite (fun _ => ?_) fun _ => ?_
  · exact Follows.ite (fun _ => Follows.of_eq rfl) fun _ => Follows.of_eq rfl
  · refine Follows.bind (Follows.ask _) fun first _ => ?_
    refine Follows.bind (Follows.ask _) fun last _ => ?_
    exact Follows.anyM fun entry _ => follows_selects entry first last day

theorem follows_selectDays (rule : Rule) (period : Period) :
    Follows (selectDays rule period) (rule.selectDays period) := by
  refine Follows.bind (Follows.ask _) fun days _ => ?_
  refine Follows.bind (Follows.keepWhere fun day _ => follows_keepsWeek rule day) fun days _ => ?_
  refine Follows.bind (Follows.keepWhere fun day _ => follows_keepsYearDay rule day)
    fun days _ => ?_
  refine Follows.bind (Follows.keepWhere fun day _ => follows_keepsMonthDay rule day)
    fun days _ => ?_
  exact Follows.keepWhere fun day _ => follows_keepsWeekday rule period day

/-! ## Candidates -/

theorem length_clockValues_le {field : Field} {pinned : Option Int} {values : List Int8}
    {anchored : Int} (hvalues : field.Normal Int8.toInt values) (high : Int)
    (hrange : ∀ part, ClockMatches pinned values anchored part → 0 ≤ part ∧ part ≤ high) :
    (clockValues pinned values anchored).length ≤ (high + 1).toNat := by
  have hlength := length_le_of_pairwise_lt (pairwise_clockValues hvalues pinned anchored)
    fun part hpart => hrange part ((mem_clockValues_iff hvalues).1 hpart)
  rwa [Int.sub_zero] at hlength

theorem length_hours_le (hrule : rule.Valid) (period : Period) :
    (clockValues period.pinnedHour? rule.hours rule.anchor.hour).length ≤ 24 := by
  refine length_clockValues_le hrule.hours 23 fun hour hhour => ?_
  simpa [Field.accepts] using Rule.accepts_hour hrule hhour

theorem length_minutes_le (hrule : rule.Valid) (period : Period) :
    (clockValues period.pinnedMinute? rule.minutes rule.anchor.minute).length ≤ 60 := by
  refine length_clockValues_le hrule.minutes 59 fun minute hminute => ?_
  simpa [Field.accepts] using Rule.accepts_minute hrule hminute

theorem length_seconds_le (hrule : rule.Valid) (period : Period) :
    (clockValues period.pinnedSecond? rule.seconds rule.anchor.secondOfMinute).length ≤ 60 := by
  refine length_clockValues_le hrule.seconds 59 fun second hsecond => ?_
  simpa [Field.accepts] using Rule.accepts_second hrule hsecond

theorem length_selectDays_le (hrule : rule.Valid) (hperiod : period.Valid) {days : List Date}
    (h : rule.selectDays period = .ok days) : days.length ≤ 366 := by
  obtain ⟨found, hfound, hascending, hmem⟩ := Rule.selectDays_spec hrule hperiod
  rw [h] at hfound
  cases hfound
  have hlength := length_le_of_pairwise_lt (List.pairwise_map.2 hascending)
    fun number hnumber => by
      obtain ⟨day, hday, rfl⟩ := List.mem_map.1 hnumber
      exact ((hmem day).1 hday).1
  have hlast := period.lastNumber_le
  rw [List.length_map] at hlength
  omega

theorem crossClock_eq (hrule : rule.Valid) {days : List Date} (hdays : days.length ≤ 366) :
    crossClock rule period days = .ok (rule.crossClock period days) := by
  have hhours := Nat.mul_le_mul hdays (length_hours_le hrule period)
  have hminutes := Nat.mul_le_mul hhours (length_minutes_le hrule period)
  have hseconds := Nat.mul_le_mul hminutes (length_seconds_le hrule period)
  unfold crossClock
  dsimp only
  rw [← Int.natCast_mul, Width.fit_word64 (by omega), ok_bind, ← Int.natCast_mul,
    Width.fit_word64 (by omega), ok_bind, ← Int.natCast_mul, Width.fit_word64 (by omega), ok_bind]
  rfl

theorem length_crossClock_le (hrule : rule.Valid) (period : Period) {days : List Date}
    (hdays : days.length ≤ 366) : (rule.crossClock period days).length ≤ 366 * 86400 := by
  rw [Rule.length_crossClock hrule]
  exact Nat.mul_le_mul hdays (Nat.mul_le_mul (length_hours_le hrule period)
    (Nat.mul_le_mul (length_minutes_le hrule period) (length_seconds_le hrule period)))

theorem picks_eq (rule : Rule) {length index : Nat} (hindex : index < length)
    (hlength : length ≤ 366 * 86400) : picks rule length index = .ok (rule.picks length index) := by
  unfold picks Rule.picks
  rw [Width.fit_word64 (by omega), ok_bind, Width.fit_word64 (by omega), ok_bind]
  by_cases hreach : (length : Int) - index ≤ Rule.positionLimit
  · have hlimit : (length : Int) - index ≤ 32767 := hreach
    rw [if_pos hreach, Width.fit_int16 (by omega), ok_bind]
    simp only [hreach, decide_true, Bool.and_true]
    rfl
  · rw [if_neg hreach]
    simp only [hreach, decide_false, Bool.and_false, Bool.false_and]
    rfl

theorem selectPositions_eq (rule : Rule) {candidates : List DateTime}
    (hlength : candidates.length ≤ 366 * 86400) :
    selectPositions rule candidates = .ok (rule.selectPositions candidates) := by
  unfold selectPositions Rule.selectPositions
  split
  · rfl
  · have hpicked : keepWhere (fun entry => picks rule candidates.length entry.2)
        candidates.zipIdx =
        .ok (candidates.zipIdx.filter fun entry => rule.picks candidates.length entry.2) :=
      keepWhere_eq_filter fun entry hentry =>
        picks_eq rule (List.snd_lt_of_mem_zipIdx hentry) hlength
    change (keepWhere (fun entry => picks rule candidates.length entry.2) candidates.zipIdx >>=
      fun picked => .ok (picked.map Prod.fst)) = _
    rw [hpicked, ok_bind, ← List.filterMap_eq_map, List.filterMap_filter]
    rfl

theorem follows_expand (hrule : rule.Valid) (hperiod : period.Valid) :
    Follows (expand rule period) (rule.expand period) := by
  refine Follows.bind (follows_selectDays rule period) fun days hdays => Follows.of_eq ?_
  have hlength := length_selectDays_le hrule hperiod hdays
  rw [crossClock_eq hrule hlength, ok_bind]
  exact selectPositions_eq rule (length_crossClock_le hrule period hlength)

end FixedWidth

/-! ## Counters -/

theorem Period.remaining_lt {period : Period} (h : period.Valid) :
    period.remaining < 1000000000000 := by
  cases period with
  | year y =>
      have hyear := Date.supportsYear_iff.1 h
      simp only [remaining, Date.maxYear]
      omega
  | month y m =>
      have hyear := Date.supportsYear_iff.1 h.1
      have hmonth := h.2
      simp only [remaining, monthIndex, Date.maxYear]
      omega
  | week first | day first =>
      have hfirst := first.first_le
      simp only [remaining, Date.max]
      omega
  | hour start | minute start | second start =>
      have hstart := start.first_le
      simp only [remaining, Date.max]
      omega

namespace Walk

variable {walk later : Walk} {period : Period}

/-- The periods visited and those left are together no more than the calendar has seconds. -/
structure Counted (walk : Walk) : Prop where
  interval_lt : walk.interval < 4294967296
  visited_le : walk.steps + walk.remaining ≤ 1000000000000

theorem counted_ofRule (rule : Rule) : (ofRule rule).Counted where
  interval_lt := rule.interval.toNat_lt
  visited_le := by
    have hremaining := Period.remaining_lt (aligned_ofRule rule _ rfl).valid
    show 0 + (_ + 1) ≤ _
    omega

theorem counted_of_next (h : walk.Counted) (hnext : walk.next? = some (period, later)) :
    later.Counted := by
  have hlt := remaining_lt_of_next hnext
  have hvisited := h.visited_le
  obtain ⟨-, rfl⟩ := next?_eq_some_iff.1 hnext
  refine ⟨h.interval_lt, ?_⟩
  show walk.steps + 1 + _ ≤ _
  omega

end Walk

namespace Cursor

variable {cursor later : Cursor}

/-- A place whose walk has its counters in range. -/
def Place.Counted : Place → Prop
  | .positioned walk _ => walk.Counted
  | .exhausted => True

theorem counted_of_step {found : Step} {place : Place} (h : cursor.place.Counted)
    (hstep : cursor.step = .ok found) (hplace : found.place? = some place) : place.Counted := by
  obtain ⟨walk, pending, later, rest, hcursor, rfl, hlater⟩ := exists_walk_of_step hstep hplace
  rw [hcursor] at h
  obtain ⟨rfl, -⟩ | ⟨period, hnext⟩ := hlater
  · exact h
  · exact Walk.counted_of_next h hnext

theorem keeps_counted : Keeps fun _ cursor => cursor.place.Counted where
  resume h hstep := counted_of_step h hstep rfl
  emit h hstep := counted_of_step h hstep rfl
  finish _ := trivial

theorem counted_of_calls {n : Nat} {answers : List (Option DateTime)} (h : cursor.place.Counted)
    (hcalls : cursor.calls n = .ok (answers, later)) : later.place.Counted :=
  keeps_counted.after_calls h hcalls

end Cursor

namespace Rule

variable {rule : Rule}

theorem nano_of_mem_occurrences (hrule : rule.Valid) {t : DateTime} (h : t ∈ rule.occurrences) :
    t.nano = 0 := by
  have hcandidate := List.mem_of_mem_filter ((cut_sublist _).subset h)
  obtain ⟨period, hperiod, hmem⟩ := List.mem_flatMap.1 hcandidate
  have haligned := Walk.aligned_of_mem_periods (Walk.aligned_ofRule rule) period hperiod
  exact ((expand_eq_expansion hrule haligned.valid).2.2 t hmem).whole

/-- A rule has at most one occurrence in each second of the calendar. -/
theorem length_occurrences_lt (hrule : rule.Valid) :
    rule.occurrences.length < 1000000000000 := by
  have hascending : (rule.occurrences.map DateTime.second).Pairwise (· < ·) := by
    refine List.pairwise_map.2 ((pairwise_occurrences hrule).imp_of_mem fun ht hu hlt => ?_)
    have htwhole := nano_of_mem_occurrences hrule ht
    have huwhole := nano_of_mem_occurrences hrule hu
    rw [DateTime.lt_iff] at hlt
    omega
  have hlength := length_le_of_pairwise_lt hascending fun second hsecond => by
    obtain ⟨t, -, rfl⟩ := List.mem_map.1 hsecond
    exact ⟨t.first_le, Int.le_sub_one_of_lt t.lt_end⟩
  rw [List.length_map] at hlength
  omega

end Rule

/-! ## Calls -/

namespace FixedWidth

theorem visit_eq {walk : Walk} {period : Period} (hperiod : period.Valid) (h : walk.Counted) :
    visit walk period = .ok
      { walk with upcoming := period.advance walk.interval, steps := walk.steps + 1 } := by
  have hvisited := h.visited_le
  rw [visit, advance_eq hperiod h.interval_lt, ok_bind, Width.fit_word64 (by omega)]
  rfl

theorem follows_step {cursor : Cursor} (h : cursor.Ready) (hcounted : cursor.place.Counted)
    (hemitted : cursor.emitted < 1000000000000) : Follows (step cursor) cursor.step := by
  obtain ⟨rule, place, emitted⟩ := cursor
  change emitted < 1000000000000 at hemitted
  cases place with
  | exhausted => exact Follows.of_eq rfl
  | positioned walk pending =>
      refine Follows.ite (fun _ => Follows.of_eq rfl) fun _ => ?_
      cases pending with
      | cons t pending =>
          refine Follows.ite (fun _ => Follows.of_eq rfl) fun _ =>
            Follows.ite (fun _ => Follows.of_eq rfl) fun _ => Follows.of_eq ?_
          have hroom : Width.word64.fit (emitted + 1) = .ok (emitted + 1 : Int) :=
            Width.fit_word64 (by omega)
          rw [hroom]
          rfl
      | nil =>
          -- The walk is taken apart so that both steps are seen to look at the same period.
          obtain ⟨upcoming, interval, hpos, steps⟩ := walk
          cases upcoming with
          | none => exact Follows.of_eq rfl
          | some period =>
              have hperiod := (h.place.aligned period rfl).valid
              refine Follows.bind (Follows.ask _) fun start _ =>
                Follows.ite (fun _ => Follows.of_eq rfl) fun _ => ?_
              rw [visit_eq hperiod hcounted, ok_bind]
              exact Follows.bind (follows_expand h.rule hperiod) fun pending _ =>
                Follows.of_eq rfl

/-- The loop of a call runs in step with the exact one, within the same limit. -/
theorem nextWithin_eq {limit : Nat} {cursor : Cursor} (h : cursor.Ready)
    (hcounted : cursor.place.Counted) (hemitted : cursor.emitted < 1000000000000)
    {answer : Option DateTime × Cursor}
    (hexact : Cursor.nextWithin Cursor.step limit cursor = some (.ok answer)) :
    Cursor.nextWithin step limit cursor = some (.ok answer) := by
  induction limit generalizing cursor with
  | zero => cases hexact
  | succ limit ih =>
      obtain ⟨found, hstep, hfinds⟩ := Cursor.exists_step h
      have hfollows := follows_step h hcounted hemitted found hstep
      rw [Cursor.nextWithin, hstep] at hexact
      rw [Cursor.nextWithin, hfollows]
      -- Both loops have taken the same step; only one that resumes leads to another.
      cases found with
      | finish | emit t place =>
          cases hexact
          rfl
      | resume place =>
          exact ih ⟨h.rule, hfinds.1⟩ (Cursor.counted_of_step hcounted hstep rfl) hemitted hexact

theorem cursor_eq (rule : Rule) : cursor rule = .ok rule.cursor := by
  rw [cursor, containing_eq]
  rfl

end FixedWidth

namespace Rule

variable {rule : Rule}

/-- However often the cursor of a built rule has been called, its next call does on numbers of
fixed width what it does without end: no question to the calendar goes unanswered, no date and no
time is missing, and no result outgrows its width. -/
theorem next_in_fixed_width {draft : Draft} (hbuild : draft.build = .ok rule) :
    FixedWidth.cursor rule = .ok rule.cursor ∧
      ∀ n, ∃ answers later, rule.cursor.calls n = .ok (answers, later) ∧
        ∃ limit answer, later.next = .ok answer ∧
          Cursor.nextWithin FixedWidth.step limit later = some (.ok answer) := by
  have hrule := valid_of_build hbuild
  refine ⟨FixedWidth.cursor_eq rule, fun n => ?_⟩
  obtain ⟨later, hcalls, hcalled⟩ := exists_calls hrule n
  obtain ⟨following, hnext, -⟩ := hcalled.next
  obtain ⟨limit, hlimit⟩ := later.exists_nextWithin
  rw [hnext] at hlimit
  have hstart : rule.cursor.place.Counted := Walk.counted_ofRule rule
  have hcounted := Cursor.counted_of_calls hstart hcalls
  have hemitted : later.emitted < 1000000000000 := by
    have hcount := hcalled.emitted
    have hlength := length_occurrences_lt hrule
    omega
  exact ⟨_, later, hcalls, limit, _, hnext,
    FixedWidth.nextWithin_eq hcalled.ready hcounted hemitted hlimit⟩

/-- The last Friday of the calendar and what lies on from it in the widest steps there are, with an
index at each end of what a field accepts. -/
def lastFriday : Rule where
  frequency := .weekly
  interval := 4294967295
  interval_pos := by decide
  anchor := .ofDate .max
  limit := none
  months := [1, 12]
  monthDays := [-31, -1, 31]
  yearDays := [-366, -1, 365]
  weekNumbers := [-53, -1, 53]
  weekdays := [⟨none, .friday⟩, ⟨some (-53), .friday⟩, ⟨some 53, .friday⟩]
  hours := [0, 23]
  minutes := [0, 59]
  seconds := [0, 59]
  positions := [-366, -1, 1, 366]
  weekStart := .sunday

theorem build_lastFriday : lastFriday.draft.build = .ok lastFriday := by
  rfl

theorem next_in_fixed_width_lastFriday :
    lastFriday.draft.build = .ok lastFriday ∧
      FixedWidth.cursor lastFriday = .ok lastFriday.cursor ∧
      ∀ n, ∃ answers later, lastFriday.cursor.calls n = .ok (answers, later) ∧
        ∃ limit answer, later.next = .ok answer ∧
          Cursor.nextWithin FixedWidth.step limit later = some (.ok answer) :=
  ⟨build_lastFriday, next_in_fixed_width build_lastFriday⟩

end Rule

end Recurrence
