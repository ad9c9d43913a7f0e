import Recurrence.Proofs.Sequence
import Recurrence.Proofs.Validation

/-!
# The normal form of a draft

A rule holds what its draft says in the one way in which it can be held: lists
ascending and without repetitions, an ordinal of zero dropped, the anchor without
its fraction of a second, what is missing filled in. `Draft.NormalForm` says this of
a rule and a draft without mention of how the rule is found, and it leaves no choice
(`NormalForm.unique`). `Draft.build_answers` is the whole of validation: which drafts
build, to what, and what is said about the others.

Two drafts agree when they say the same up to what the normal form does not keep,
and that is when they build to the same rule. The draft of a rule agrees with every
draft that the rule was built from, so it builds to the rule again.
-/

namespace Recurrence

/-! ## Sorted lists -/

/-- A list has the members of another, ascending and each once. -/
structure Sorts {α : Type} [LT α] (kept values : List α) : Prop where
  ascending : kept.Pairwise (· < ·)
  mem_iff : ∀ a, a ∈ kept ↔ a ∈ values

section Sorted

variable {α : Type} [LT α] {key : α → Int} {kept values others : List α}

theorem Sorts.congr (h : Sorts kept values) (hmem : ∀ a, a ∈ values ↔ a ∈ others) :
    Sorts kept others :=
  ⟨h.ascending, fun a => (h.mem_iff a).trans (hmem a)⟩

/-- Where the order is that of the keys, and no two members share one, there is one way to sort. -/
theorem sorts_iff (hkey : ∀ a b, key a = key b → a = b) (hlt : ∀ a b, a < b ↔ key a < key b) :
    Sorts kept values ↔ kept = ascending key values := by
  constructor
  · intro h
    have : Std.Irrefl fun a b : α => key a < key b := ⟨fun a => Int.lt_irrefl (key a)⟩
    have : Std.Antisymm fun a b : α => key a < key b :=
      ⟨fun a b hab hba => absurd hba (Int.lt_asymm hab)⟩
    have hpairwise : kept.Pairwise fun a b => key a < key b :=
      h.ascending.imp fun {a b} hab => (hlt a b).1 hab
    refine hpairwise.eq_of_mem_iff (pairwise_ascending values) fun a => ?_
    rw [h.mem_iff, mem_ascending hkey]
  · rintro rfl
    exact ⟨(pairwise_ascending values).imp fun {a b} hab => (hlt a b).2 hab,
      fun a => mem_ascending hkey⟩

theorem sorts_int8_iff {kept values : List Int8} :
    Sorts kept values ↔ kept = ascending Int8.toInt values :=
  sorts_iff (fun _ _ => Int8.toInt_inj.1) fun _ _ => Int8.lt_iff_toInt_lt

theorem sorts_int16_iff {kept values : List Int16} :
    Sorts kept values ↔ kept = ascending Int16.toInt values :=
  sorts_iff (fun _ _ => Int16.toInt_inj.1) fun _ _ => Int16.lt_iff_toInt_lt

theorem sorts_weekdays_iff {kept values : List WeekdayEntry} :
    Sorts kept values ↔ kept = ascending WeekdayEntry.key values :=
  sorts_iff (fun _ _ => WeekdayEntry.eq_of_key_eq) fun _ _ => WeekdayEntry.lt_iff_key_lt

theorem Sorts.unique_int8 {kept other values : List Int8} (h : Sorts kept values)
    (h' : Sorts other values) : kept = other :=
  (sorts_int8_iff.1 h).trans (sorts_int8_iff.1 h').symm

theorem Sorts.unique_int16 {kept other values : List Int16} (h : Sorts kept values)
    (h' : Sorts other values) : kept = other :=
  (sorts_int16_iff.1 h).trans (sorts_int16_iff.1 h').symm

end Sorted

theorem Field.eq_ascending_of_check {α : Type} {field : Field} {key : α → Int}
    {values kept : List α} (h : field.check key values = .ok kept) :
    kept = ascending key values := by
  unfold check at h
  split at h
  · cases h
  · cases h
    rfl

namespace Draft

/-! ## Building -/

/-- A rule is the normal form of a draft. -/
structure NormalForm (draft : Draft) (rule : Rule) : Prop where
  frequency : rule.frequency = draft.frequency
  interval : rule.interval = draft.interval.getD 1
  interval_pos : 1 ≤ rule.interval.toNat
  anchor : rule.anchor.second = draft.anchor.second
  anchor_whole : rule.anchor.nano = 0
  count : rule.count = draft.count
  bound : rule.bound = draft.bound
  months : Sorts rule.months draft.months
  monthDays : Sorts rule.monthDays draft.monthDays
  yearDays : Sorts rule.yearDays draft.yearDays
  weekNumbers : Sorts rule.weekNumbers draft.weekNumbers
  weekdays : Sorts rule.weekdays (draft.weekdays.map WeekdayEntry.normal)
  ordinals : ∀ entry ∈ rule.weekdays, entry.ordinal ≠ some 0
  hours : Sorts rule.hours draft.hours
  minutes : Sorts rule.minutes draft.minutes
  seconds : Sorts rule.seconds draft.seconds
  positions : Sorts rule.positions draft.positions
  weekStart : rule.weekStart = draft.weekStart.getD .monday

variable {draft : Draft} {rule : Rule}

theorem count_and_bound_of_limit (h : draft.limit = .ok rule.limit) :
    rule.count = draft.count ∧ rule.bound = draft.bound := by
  revert h
  unfold limit Rule.count Rule.bound
  cases draft.count <;> cases draft.bound <;> simp +contextual [eq_comm]

theorem eq_map_normal_of_mapM {entries kept : List WeekdayEntry}
    (h : entries.mapM WeekdayEntry.check = .ok kept) :
    kept = entries.map WeekdayEntry.normal := by
  have hrel := mapM_eq_ok_iff.1 h
  clear h
  induction hrel with
  | nil => rfl
  | cons hcheck _ ih => rw [List.map_cons, (WeekdayEntry.check_eq_ok_iff.1 hcheck).2, ih]

theorem normalForm_of_builds (h : draft.Builds rule) : draft.NormalForm rule := by
  obtain ⟨entries, hentries, hweekdays⟩ := h.weekdays
  obtain ⟨hcount, hbound⟩ := count_and_bound_of_limit h.limit
  have hsorted : Sorts rule.weekdays (draft.weekdays.map WeekdayEntry.normal) := by
    rw [sorts_weekdays_iff, hweekdays, eq_map_normal_of_mapM hentries]
  refine {
    frequency := h.frequency
    interval := h.interval
    interval_pos := rule.interval_pos
    anchor := by rw [h.anchor]; rfl
    anchor_whole := by rw [h.anchor]; rfl
    count := hcount
    bound := hbound
    months := sorts_int8_iff.2 (Field.eq_ascending_of_check h.months)
    monthDays := sorts_int8_iff.2 (Field.eq_ascending_of_check h.monthDays)
    yearDays := sorts_int16_iff.2 (Field.eq_ascending_of_check h.yearDays)
    weekNumbers := sorts_int8_iff.2 (Field.eq_ascending_of_check h.weekNumbers)
    weekdays := hsorted
    ordinals := ?_
    hours := sorts_int8_iff.2 (Field.eq_ascending_of_check h.hours)
    minutes := sorts_int8_iff.2 (Field.eq_ascending_of_check h.minutes)
    seconds := sorts_int8_iff.2 (Field.eq_ascending_of_check h.seconds)
    positions := sorts_int16_iff.2 (Field.eq_ascending_of_check h.positions)
    weekStart := h.weekStart }
  intro entry hentry
  obtain ⟨raw, -, rfl⟩ := List.mem_map.1 ((hsorted.mem_iff entry).1 hentry)
  exact raw.ordinal_normal_ne_zero

theorem limit_eq_of_count_of_bound {other : Rule} (hcount : rule.count = other.count)
    (hbound : rule.bound = other.bound) : rule.limit = other.limit := by
  unfold Rule.count at hcount
  unfold Rule.bound at hbound
  generalize rule.limit = limit at hcount hbound ⊢
  generalize other.limit = otherLimit at hcount hbound ⊢
  rcases limit with _ | n | u <;> rcases otherLimit with _ | n' | u' <;> simp_all

theorem NormalForm.unique {other : Rule} (h : draft.NormalForm rule)
    (h' : draft.NormalForm other) : rule = other := by
  have hlimit := limit_eq_of_count_of_bound (h.count.trans h'.count.symm)
    (h.bound.trans h'.bound.symm)
  have hanchor : rule.anchor = other.anchor :=
    DateTime.ext_fields (h.anchor.trans h'.anchor.symm) (h.anchor_whole.trans h'.anchor_whole.symm)
  have hfrequency := h.frequency.trans h'.frequency.symm
  have hinterval := h.interval.trans h'.interval.symm
  have hmonths := h.months.unique_int8 h'.months
  have hmonthDays := h.monthDays.unique_int8 h'.monthDays
  have hyearDays := h.yearDays.unique_int16 h'.yearDays
  have hweekNumbers := h.weekNumbers.unique_int8 h'.weekNumbers
  have hweekdays :=
    (sorts_weekdays_iff.1 h.weekdays).trans (sorts_weekdays_iff.1 h'.weekdays).symm
  have hhours := h.hours.unique_int8 h'.hours
  have hminutes := h.minutes.unique_int8 h'.minutes
  have hseconds := h.seconds.unique_int8 h'.seconds
  have hpositions := h.positions.unique_int16 h'.positions
  have hweekStart := h.weekStart.trans h'.weekStart.symm
  cases rule
  cases other
  simp only at *
  subst_vars
  rfl

/-- A draft builds if it is acceptable, and then to its normal form; otherwise it is refused with
the first of its complaints. -/
theorem build_answers (draft : Draft) :
    ((∃ rule, draft.build = .ok rule) ↔ draft.Acceptable) ∧
      (∀ rule, draft.build = .ok rule ↔ draft.Acceptable ∧ draft.NormalForm rule) ∧
      ∀ error, draft.build = .error error ↔ draft.complaints.head? = some error := by
  refine ⟨exists_build_iff, fun rule => ?_, draft.reports_build⟩
  constructor
  · intro h
    exact ⟨exists_build_iff.1 ⟨rule, h⟩, normalForm_of_builds (builds_of_build h)⟩
  · rintro ⟨hacceptable, hnormal⟩
    obtain ⟨other, hother⟩ := exists_build_iff.2 hacceptable
    rw [hnormal.unique (normalForm_of_builds (builds_of_build hother))]
    exact hother

/-! ## Agreement -/

/-- Two drafts say the same, apart from the order and number of their list entries, ordinals of
zero, a fraction of a second in the anchor, and whether a default is written out. -/
structure Agrees (draft other : Draft) : Prop where
  frequency : draft.frequency = other.frequency
  interval : draft.interval.getD 1 = other.interval.getD 1
  anchor : draft.anchor.wholeSecond = other.anchor.wholeSecond
  count : draft.count = other.count
  bound : draft.bound = other.bound
  months : ∀ month, month ∈ draft.months ↔ month ∈ other.months
  monthDays : ∀ day, day ∈ draft.monthDays ↔ day ∈ other.monthDays
  yearDays : ∀ day, day ∈ draft.yearDays ↔ day ∈ other.yearDays
  weekNumbers : ∀ week, week ∈ draft.weekNumbers ↔ week ∈ other.weekNumbers
  weekdays : ∀ entry, entry ∈ draft.weekdays.map WeekdayEntry.normal ↔
    entry ∈ other.weekdays.map WeekdayEntry.normal
  hours : ∀ hour, hour ∈ draft.hours ↔ hour ∈ other.hours
  minutes : ∀ minute, minute ∈ draft.minutes ↔ minute ∈ other.minutes
  seconds : ∀ second, second ∈ draft.seconds ↔ second ∈ other.seconds
  positions : ∀ place, place ∈ draft.positions ↔ place ∈ other.positions
  weekStart : draft.weekStart.getD .monday = other.weekStart.getD .monday

variable {other : Draft}

theorem NormalForm.agrees (h : draft.NormalForm rule) (h' : other.NormalForm rule) :
    draft.Agrees other where
  frequency := h.frequency.symm.trans h'.frequency
  interval := h.interval.symm.trans h'.interval
  anchor := DateTime.ext_fields (h.anchor.symm.trans h'.anchor) rfl
  count := h.count.symm.trans h'.count
  bound := h.bound.symm.trans h'.bound
  months := fun month => (h.months.mem_iff month).symm.trans (h'.months.mem_iff month)
  monthDays := fun day => (h.monthDays.mem_iff day).symm.trans (h'.monthDays.mem_iff day)
  yearDays := fun day => (h.yearDays.mem_iff day).symm.trans (h'.yearDays.mem_iff day)
  weekNumbers := fun week => (h.weekNumbers.mem_iff week).symm.trans (h'.weekNumbers.mem_iff week)
  weekdays := fun entry => (h.weekdays.mem_iff entry).symm.trans (h'.weekdays.mem_iff entry)
  hours := fun hour => (h.hours.mem_iff hour).symm.trans (h'.hours.mem_iff hour)
  minutes := fun minute => (h.minutes.mem_iff minute).symm.trans (h'.minutes.mem_iff minute)
  seconds := fun second => (h.seconds.mem_iff second).symm.trans (h'.seconds.mem_iff second)
  positions := fun place => (h.positions.mem_iff place).symm.trans (h'.positions.mem_iff place)
  weekStart := h.weekStart.symm.trans h'.weekStart

theorem NormalForm.of_agrees (h : draft.NormalForm rule) (hagrees : draft.Agrees other) :
    other.NormalForm rule where
  frequency := h.frequency.trans hagrees.frequency
  interval := h.interval.trans hagrees.interval
  interval_pos := h.interval_pos
  anchor := h.anchor.trans (congrArg DateTime.second hagrees.anchor :)
  anchor_whole := h.anchor_whole
  count := h.count.trans hagrees.count
  bound := h.bound.trans hagrees.bound
  months := h.months.congr hagrees.months
  monthDays := h.monthDays.congr hagrees.monthDays
  yearDays := h.yearDays.congr hagrees.yearDays
  weekNumbers := h.weekNumbers.congr hagrees.weekNumbers
  weekdays := h.weekdays.congr hagrees.weekdays
  ordinals := h.ordinals
  hours := h.hours.congr hagrees.hours
  minutes := h.minutes.congr hagrees.minutes
  seconds := h.seconds.congr hagrees.seconds
  positions := h.positions.congr hagrees.positions
  weekStart := h.weekStart.trans hagrees.weekStart

theorem mem_numbers_iff_of_agrees (hagrees : draft.Agrees other) (field : Field) (value : Int) :
    value ∈ draft.numbers field ↔ value ∈ other.numbers field := by
  have hweekdays : ∀ d : Draft, d.weekdays.filterMap WeekdayEntry.place? =
      (d.weekdays.map WeekdayEntry.normal).filterMap fun entry =>
        entry.ordinal.map Int8.toInt := by
    intro d
    rw [List.filterMap_map]
    rfl
  cases field with
  | weekday => simp only [numbers, hweekdays, List.mem_filterMap, hagrees.weekdays]
  | month => simp only [numbers, List.mem_map, hagrees.months]
  | monthDay => simp only [numbers, List.mem_map, hagrees.monthDays]
  | yearDay => simp only [numbers, List.mem_map, hagrees.yearDays]
  | weekNumber => simp only [numbers, List.mem_map, hagrees.weekNumbers]
  | hour => simp only [numbers, List.mem_map, hagrees.hours]
  | minute => simp only [numbers, List.mem_map, hagrees.minutes]
  | second => simp only [numbers, List.mem_map, hagrees.seconds]
  | position => simp only [numbers, List.mem_map, hagrees.positions]

theorem Acceptable.of_agrees (h : draft.Acceptable) (hagrees : draft.Agrees other) :
    other.Acceptable where
  interval := by
    intro n hn
    have hinterval := hagrees.interval
    rw [hn, Option.getD_some] at hinterval
    rw [← hinterval]
    cases hdraft : draft.interval with
    | none => exact Nat.le_refl 1
    | some m => exact h.interval m hdraft
  limit := by
    rw [← hagrees.count, ← hagrees.bound]
    exact h.limit
  numbers := by
    intro field value hvalue
    exact h.numbers field value ((mem_numbers_iff_of_agrees hagrees field value).2 hvalue)

/-- Once a draft builds, the drafts that build to the same rule are those that agree with it. -/
theorem build_iff_agrees (h : draft.build = .ok rule) :
    other.build = .ok rule ↔ draft.Agrees other := by
  have hnormal := normalForm_of_builds (builds_of_build h)
  constructor
  · intro hother
    exact hnormal.agrees (normalForm_of_builds (builds_of_build hother))
  · intro hagrees
    have hacceptable := (exists_build_iff.1 ⟨rule, h⟩).of_agrees hagrees
    obtain ⟨otherRule, hother⟩ := exists_build_iff.2 hacceptable
    have hsame := (hnormal.of_agrees hagrees).unique (normalForm_of_builds (builds_of_build hother))
    rw [hsame]
    exact hother

theorem NormalForm.agrees_draft (h : draft.NormalForm rule) : draft.Agrees rule.draft where
  frequency := h.frequency.symm
  interval := h.interval.symm
  anchor := DateTime.ext_fields h.anchor.symm rfl
  count := h.count.symm
  bound := h.bound.symm
  months := fun month => (h.months.mem_iff month).symm
  monthDays := fun day => (h.monthDays.mem_iff day).symm
  yearDays := fun day => (h.yearDays.mem_iff day).symm
  weekNumbers := fun week => (h.weekNumbers.mem_iff week).symm
  weekdays := by
    intro entry
    have hkept : ∀ kept ∈ rule.weekdays, kept.normal = id kept := fun kept hkept =>
      if_neg (h.ordinals kept hkept)
    rw [Rule.draft, List.map_congr_left hkept, List.map_id, h.weekdays.mem_iff]
  hours := fun hour => (h.hours.mem_iff hour).symm
  minutes := fun minute => (h.minutes.mem_iff minute).symm
  seconds := fun second => (h.seconds.mem_iff second).symm
  positions := fun place => (h.positions.mem_iff place).symm
  weekStart := h.weekStart.symm

theorem build_draft (h : draft.build = .ok rule) : rule.draft.build = .ok rule :=
  (build_iff_agrees h).2 (normalForm_of_builds (builds_of_build h)).agrees_draft

/-- A rule is built again from its own draft, two drafts that build have the same rule exactly
when they agree, and every draft that agrees with one that builds, such as one with list entries
in another order or repeated, has the same occurrences. -/
theorem drafts_of_one_rule (h : draft.build = .ok rule) :
    rule.draft.build = .ok rule ∧
      (∀ other otherRule, other.build = .ok otherRule →
        (rule = otherRule ↔ draft.Agrees other)) ∧
      ∃ all, rule.cursor.toList = .ok all ∧ ∀ other, draft.Agrees other →
        ∃ same, other.build = .ok same ∧ same.cursor.toList = .ok all := by
  refine ⟨build_draft h, fun other otherRule hother => ?_, rule.occurrences,
    Rule.toList_cursor (valid_of_build h), fun other hagrees => ?_⟩
  · rw [← build_iff_agrees h, hother, Except.ok.injEq, eq_comm]
  · exact ⟨rule, (build_iff_agrees h).2 hagrees, Rule.toList_cursor (valid_of_build h)⟩

/-- The first and the last Monday or Friday of each month from January to March, carelessly
written down. -/
def careless : Draft where
  frequency := .monthly
  anchor := { DateTime.ofDate ((Date.ofFields? 1997 9 2).getD .min) with
    nano := 500
    nano_lt := by decide }
  interval := none
  count := none
  bound := some (.ofDate ((Date.ofFields? 1999 4 28).getD .min))
  months := [3, 1, 3, 2]
  monthDays := []
  yearDays := []
  weekNumbers := []
  weekdays := [⟨none, .friday⟩, ⟨some 0, .monday⟩, ⟨none, .monday⟩]
  hours := [17, 9, 17]
  minutes := []
  seconds := []
  positions := [-1, 1, -1]
  weekStart := none

/-- The rule of that draft: sorted, without repetitions, and with what the draft leaves open. -/
def tidied : Rule where
  frequency := .monthly
  interval := 1
  interval_pos := Nat.one_pos
  anchor := .ofDate ((Date.ofFields? 1997 9 2).getD .min)
  limit := some (.bound (.ofDate ((Date.ofFields? 1999 4 28).getD .min)))
  months := [1, 2, 3]
  monthDays := []
  yearDays := []
  weekNumbers := []
  weekdays := [⟨none, .monday⟩, ⟨none, .friday⟩]
  hours := [9, 17]
  minutes := []
  seconds := []
  positions := [-1, 1]
  weekStart := .monday

theorem build_careless : careless.build = .ok tidied :=
  rfl

theorem drafts_of_one_rule_careless :
    careless.build = .ok tidied ∧ tidied.draft.build = .ok tidied ∧
      (∀ other otherRule, other.build = .ok otherRule →
        (tidied = otherRule ↔ careless.Agrees other)) ∧
      ∃ all, tidied.cursor.toList = .ok all ∧ ∀ other, careless.Agrees other →
        ∃ same, other.build = .ok same ∧ same.cursor.toList = .ok all :=
  ⟨build_careless, drafts_of_one_rule build_careless⟩

end Draft

end Recurrence
