import Recurrence.Proofs.Answers

/-!
# What building a rule establishes

`Builds` says, field by field, how a rule comes out of its draft, and `Draft.build`
succeeds with a rule exactly when the rule comes out of the draft in this way. One
direction, `builds_of_build`, yields `valid_of_build`, the invariant on which everything
about built rules rests; the other, `build_of_builds`, says that a draft which differs in
one field builds to the rule which differs in that field.
-/

namespace Recurrence

/-- A list as a rule holds it: ascending without repetitions, every value in range. -/
def Field.Normal {α : Type} (field : Field) (key : α → Int) (values : List α) : Prop :=
  values.Pairwise (fun a b => key a < key b) ∧ ∀ a ∈ values, field.accepts (key a) = true

/-- An entry as a rule holds it: its ordinal, if it has one, is a position. -/
def WeekdayEntry.Proper (entry : WeekdayEntry) : Prop :=
  ∀ ordinal, entry.ordinal = some ordinal →
    ordinal.toInt ≠ 0 ∧ Field.weekday.accepts ordinal.toInt = true

/-- What holds of every rule that was built. -/
structure Rule.Valid (rule : Rule) : Prop where
  anchor_whole : rule.anchor.nano = 0
  months : Field.month.Normal Int8.toInt rule.months
  monthDays : Field.monthDay.Normal Int8.toInt rule.monthDays
  yearDays : Field.yearDay.Normal Int16.toInt rule.yearDays
  weekNumbers : Field.weekNumber.Normal Int8.toInt rule.weekNumbers
  weekdays : rule.weekdays.Pairwise fun a b => a.key < b.key
  ordinals : ∀ entry ∈ rule.weekdays, entry.Proper
  hours : Field.hour.Normal Int8.toInt rule.hours
  minutes : Field.minute.Normal Int8.toInt rule.minutes
  seconds : Field.second.Normal Int8.toInt rule.seconds
  positions : Field.position.Normal Int16.toInt rule.positions

/-- How a rule comes out of its draft. -/
structure Draft.Builds (draft : Draft) (rule : Rule) : Prop where
  frequency : rule.frequency = draft.frequency
  interval : rule.interval = draft.interval.getD 1
  anchor : rule.anchor = draft.anchor.wholeSecond
  limit : draft.limit = .ok rule.limit
  months : Field.month.check Int8.toInt draft.months = .ok rule.months
  monthDays : Field.monthDay.check Int8.toInt draft.monthDays = .ok rule.monthDays
  yearDays : Field.yearDay.check Int16.toInt draft.yearDays = .ok rule.yearDays
  weekNumbers : Field.weekNumber.check Int8.toInt draft.weekNumbers = .ok rule.weekNumbers
  weekdays : ∃ entries, draft.weekdays.mapM WeekdayEntry.check = .ok entries ∧
    rule.weekdays = ascending WeekdayEntry.key entries
  hours : Field.hour.check Int8.toInt draft.hours = .ok rule.hours
  minutes : Field.minute.check Int8.toInt draft.minutes = .ok rule.minutes
  seconds : Field.second.check Int8.toInt draft.seconds = .ok rule.seconds
  positions : Field.position.check Int16.toInt draft.positions = .ok rule.positions
  weekStart : rule.weekStart = draft.weekStart.getD .monday

namespace Draft

theorem builds_of_build {draft : Draft} {rule : Rule} (h : draft.build = .ok rule) :
    draft.Builds rule := by
  unfold build at h
  simp only [] at h
  split at h
  · obtain ⟨limit, hlimit, h⟩ := bind_eq_ok_iff.1 h
    obtain ⟨entries, hentries, h⟩ := bind_eq_ok_iff.1 h
    obtain ⟨months, hmonths, h⟩ := bind_eq_ok_iff.1 h
    obtain ⟨monthDays, hmonthDays, h⟩ := bind_eq_ok_iff.1 h
    obtain ⟨yearDays, hyearDays, h⟩ := bind_eq_ok_iff.1 h
    obtain ⟨weekNumbers, hweekNumbers, h⟩ := bind_eq_ok_iff.1 h
    obtain ⟨hours, hhours, h⟩ := bind_eq_ok_iff.1 h
    obtain ⟨minutes, hminutes, h⟩ := bind_eq_ok_iff.1 h
    obtain ⟨seconds, hseconds, h⟩ := bind_eq_ok_iff.1 h
    obtain ⟨positions, hpositions, h⟩ := bind_eq_ok_iff.1 h
    cases h
    exact {
      frequency := rfl
      interval := rfl
      anchor := rfl
      limit := hlimit
      months := hmonths
      monthDays := hmonthDays
      yearDays := hyearDays
      weekNumbers := hweekNumbers
      weekdays := ⟨entries, hentries, rfl⟩
      hours := hhours
      minutes := hminutes
      seconds := hseconds
      positions := hpositions
      weekStart := rfl }
  · cases h

theorem build_of_builds {draft : Draft} {rule : Rule} (h : draft.Builds rule) :
    draft.build = .ok rule := by
  obtain ⟨frequency, interval, hpos, anchor, limit, months, monthDays, yearDays, weekNumbers,
    weekdays, hours, minutes, seconds, positions, weekStart⟩ := rule
  obtain ⟨rfl, rfl, rfl, hlimit, hmonths, hmonthDays, hyearDays, hweekNumbers,
    ⟨entries, hentries, rfl⟩, hhours, hminutes, hseconds, hpositions, rfl⟩ := h
  simp only [build, dif_pos hpos, hlimit, hentries, hmonths, hmonthDays, hyearDays,
    hweekNumbers, hhours, hminutes, hseconds, hpositions, ok_bind]
  rfl

theorem limit_eq_none_iff {draft : Draft} :
    draft.limit = .ok none ↔ draft.count = none ∧ draft.bound = none := by
  unfold limit
  cases draft.count <;> cases draft.bound <;> simp

/-- The frequency is not checked, and nothing else that is depends on it. -/
theorem build_with_frequency (draft : Draft) (frequency : Frequency) :
    { draft with frequency := frequency }.build =
      draft.build.map fun rule => { rule with frequency := frequency } := by
  show _ = (fun rule : Rule => { rule with frequency := frequency }) <$> draft.build
  unfold build
  simp only []
  split
  · simp only [map_bind, map_pure]
    rfl
  · rfl

end Draft

theorem Field.mem_of_check {α : Type} {field : Field} {key : α → Int} {values kept : List α}
    (hkey : ∀ a b, key a = key b → a = b) (h : field.check key values = .ok kept) (a : α) :
    a ∈ kept ↔ a ∈ values := by
  unfold Field.check at h
  split at h
  · cases h
  · cases h
    exact mem_ascending hkey

theorem Field.eq_nil_iff_of_check {α : Type} {field : Field} {key : α → Int}
    {values kept : List α} (hkey : ∀ a b, key a = key b → a = b)
    (h : field.check key values = .ok kept) : kept = [] ↔ values = [] := by
  simp only [List.eq_nil_iff_forall_not_mem, Field.mem_of_check hkey h]

theorem Field.normal_of_check {α : Type} {field : Field} {key : α → Int} {values kept : List α}
    (hkey : ∀ a b, key a = key b → a = b) (h : field.check key values = .ok kept) :
    field.Normal key kept := by
  unfold Field.check at h
  split at h
  · cases h
  next hfind =>
    cases h
    refine ⟨pairwise_ascending values, fun a ha => ?_⟩
    have hall := List.find?_eq_none.1 hfind a ((mem_ascending hkey).1 ha)
    simpa using hall

/-- An entry without an ordinal is kept as one, and so is one whose ordinal is zero. -/
theorem WeekdayEntry.check_of_plain {entry : WeekdayEntry}
    (h : entry.ordinal = none ∨ entry.ordinal = some 0) :
    entry.check = .ok ⟨none, entry.weekday⟩ := by
  obtain ⟨ordinal, weekday⟩ := entry
  rcases h with rfl | rfl <;> rfl

theorem WeekdayEntry.proper_of_check {entry kept : WeekdayEntry} (h : entry.check = .ok kept) :
    kept.Proper := by
  intro ordinal hordinal
  unfold WeekdayEntry.check at h
  split at h
  next hnone =>
    cases h
    rw [hnone] at hordinal
    cases hordinal
  next n hsome =>
    split at h
    · cases h
      cases hordinal
    next hzero =>
      split at h
      next haccepts =>
        cases h
        rw [hsome] at hordinal
        cases hordinal
        exact ⟨hzero, haccepts⟩
      · cases h

namespace Draft

variable {draft : Draft} {rule : Rule}

theorem mem_weekdays_iff (h : draft.Builds rule) (entry : WeekdayEntry) :
    entry ∈ rule.weekdays ↔ ∃ raw ∈ draft.weekdays, raw.check = .ok entry := by
  obtain ⟨entries, hentries, hweekdays⟩ := h.weekdays
  rw [hweekdays, mem_ascending fun _ _ => WeekdayEntry.eq_of_key_eq]
  exact mem_iff_of_mapM hentries

theorem weekdays_eq_nil_iff (h : draft.Builds rule) :
    rule.weekdays = [] ↔ draft.weekdays = [] := by
  obtain ⟨entries, hentries, hweekdays⟩ := h.weekdays
  have hlength := (mapM_eq_ok_iff.1 hentries).length_eq
  rw [hweekdays, List.eq_nil_iff_forall_not_mem]
  simp only [mem_ascending fun _ _ => WeekdayEntry.eq_of_key_eq]
  rw [← List.eq_nil_iff_forall_not_mem, ← List.length_eq_zero_iff, ← hlength,
    List.length_eq_zero_iff]

end Draft

theorem valid_of_build {draft : Draft} {rule : Rule} (h : draft.build = .ok rule) :
    rule.Valid := by
  have hb := Draft.builds_of_build h
  have hint8 : ∀ a b : Int8, a.toInt = b.toInt → a = b := fun _ _ => Int8.toInt_inj.1
  have hint16 : ∀ a b : Int16, a.toInt = b.toInt → a = b := fun _ _ => Int16.toInt_inj.1
  obtain ⟨entries, hentries, hweekdays⟩ := hb.weekdays
  refine ⟨?_, Field.normal_of_check hint8 hb.months, Field.normal_of_check hint8 hb.monthDays,
    Field.normal_of_check hint16 hb.yearDays, Field.normal_of_check hint8 hb.weekNumbers, ?_, ?_,
    Field.normal_of_check hint8 hb.hours, Field.normal_of_check hint8 hb.minutes,
    Field.normal_of_check hint8 hb.seconds, Field.normal_of_check hint16 hb.positions⟩
  · rw [hb.anchor]
    rfl
  · rw [hweekdays]
    exact pairwise_ascending entries
  · intro entry hentry
    obtain ⟨raw, -, hraw⟩ := (Draft.mem_weekdays_iff hb entry).1 hentry
    exact WeekdayEntry.proper_of_check hraw

end Recurrence
