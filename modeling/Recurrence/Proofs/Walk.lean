import Recurrence.Period.Walk
import Recurrence.Proofs.Positions

/-!
# What lies along a walk

A walk is read through the list of the periods it visits. Each of them ends
before the next one opens, and what a rule selects from a period lies inside it.
Laid end to end, the selections of a walk are therefore one ascending list, with
nothing said about how far apart the periods are.

The induction is on the walk itself, which `Walk.next?` makes shorter. What it
carries forward is that the period to come begins where its unit begins, and
that it does not open before the one left behind has closed.
-/

namespace Recurrence

namespace Rule

/-- The date-times that a rule selects from a period. -/
def expansion (rule : Rule) (period : Period) : List DateTime :=
  match rule.expand period with
  | .ok found => found
  | .error _ => []

/-- The days of a period are those between its first and its last one. -/
theorem exists_mem_days_iff {period : Period} {date : Date} :
    (∃ days, period.days = .ok days ∧ date ∈ days) ↔ ∃ first last,
      period.firstDay = .ok first ∧ period.lastDay = .ok last ∧ first ≤ date ∧ date ≤ last := by
  constructor
  · rintro ⟨days, hdays, hmem⟩
    obtain ⟨first, hfirst, hdays⟩ := bind_eq_ok_iff.1 hdays
    obtain ⟨last, hlast, hdays⟩ := bind_eq_ok_iff.1 hdays
    cases hdays
    exact ⟨first, last, hfirst, hlast, Date.mem_upTo.1 hmem⟩
  · rintro ⟨first, last, hfirst, hlast, hle⟩
    refine ⟨first.upTo last, ?_, Date.mem_upTo.2 hle⟩
    rw [Period.days, hfirst, ok_bind, hlast, ok_bind]
    rfl

theorem Matches.contains {rule : Rule} {period : Period} {t : DateTime}
    (h : rule.Matches period t) : period.Contains t where
  day := exists_mem_days_iff.2 h.within
  hour := h.hour.eq_pinned
  minute := h.minute.eq_pinned
  second := h.second.eq_pinned

variable {rule : Rule} {period : Period}

/-- A built rule selects from a period of the calendar, in order, some of what it matches there. -/
theorem expand_eq_expansion (hrule : rule.Valid) (hperiod : period.Valid) :
    rule.expand period = .ok (rule.expansion period) ∧
      (rule.expansion period).Pairwise (· < ·) ∧
      ∀ t ∈ rule.expansion period, rule.Matches period t := by
  obtain ⟨days, hdays, hascending, hmem⟩ := crossClock_spec hrule hperiod
  have hexpand := expand_eq_ok hdays
  have hsub := Rule.selectPositions_sublist hrule (rule.crossClock period days)
  rw [expansion, hexpand]
  exact ⟨rfl, hascending.sublist hsub, fun t ht => (hmem t).1 (hsub.subset ht)⟩

theorem mem_expansion_iff (hrule : rule.Valid) (hpositions : rule.positions = [])
    (hperiod : period.Valid) {t : DateTime} :
    t ∈ rule.expansion period ↔ rule.Matches period t := by
  obtain ⟨days, hdays, -, hmem⟩ := crossClock_spec hrule hperiod
  rw [expansion, expand_eq_ok hdays]
  simp only [selectPositions_of_eq_nil hpositions]
  exact hmem t

/-- What is selected from a period lies between its ends. -/
theorem bounds_of_mem_expansion (hrule : rule.Valid) (hperiod : period.Aligned) {t : DateTime}
    (h : t ∈ rule.expansion period) : period.opens ≤ t.second ∧ t.second < period.closes := by
  obtain ⟨-, -, hmatches⟩ := expand_eq_expansion hrule hperiod.valid
  exact (Period.contains_iff hperiod).1 (hmatches t h).contains

end Rule

namespace Walk

/-- The periods that a walk visits. -/
def periods (walk : Walk) : List Period :=
  match _h : walk.next? with
  | none => []
  | some (period, later) => period :: later.periods
termination_by walk.remaining
decreasing_by exact remaining_lt_of_next _h

/-- The period to come begins where its unit begins. -/
def Aligned (walk : Walk) : Prop :=
  ∀ period, walk.upcoming = some period → period.Aligned

/-- The period to come does not open before a second. -/
def From (walk : Walk) (second : Int) : Prop :=
  ∀ period, walk.upcoming = some period → second ≤ period.opens

theorem aligned_ofRule (rule : Rule) : (ofRule rule).Aligned := by
  intro period h
  cases h
  exact Period.aligned_containing rule.frequency rule.anchor rule.weekStart

variable {walk later : Walk} {period : Period}

theorem periods_of_next_eq_none (h : walk.next? = none) : walk.periods = [] := by
  rw [periods]
  split
  · rfl
  next hnext =>
    rw [h] at hnext
    cases hnext

theorem periods_of_next_eq_some (h : walk.next? = some (period, later)) :
    walk.periods = period :: later.periods := by
  rw [periods]
  split
  next hnext =>
    rw [h] at hnext
    cases hnext
  next hnext =>
    rw [h] at hnext
    cases hnext
    rfl

/-- A visit takes the period to come, and leads one interval further. -/
theorem next?_eq_some_iff :
    walk.next? = some (period, later) ↔ walk.upcoming = some period ∧
      later = { walk with upcoming := period.advance walk.interval, steps := walk.steps + 1 } := by
  unfold next?
  cases hupcoming : walk.upcoming with
  | none =>
      constructor
      · intro h
        cases h
      · rintro ⟨h, -⟩
        cases h
  | some upcoming =>
      constructor
      · intro h
        cases h
        exact ⟨rfl, rfl⟩
      · rintro ⟨h, rfl⟩
        cases h
        rfl

theorem aligned_of_next (h : walk.Aligned) (hnext : walk.next? = some (period, later)) :
    period.Aligned ∧ later.Aligned := by
  obtain ⟨hupcoming, rfl⟩ := next?_eq_some_iff.1 hnext
  have hperiod := h period hupcoming
  exact ⟨hperiod, fun following hadvance => Period.aligned_of_advance hperiod hadvance⟩

theorem from_of_next (h : walk.Aligned) (hnext : walk.next? = some (period, later)) :
    later.From period.closes := by
  obtain ⟨hupcoming, rfl⟩ := next?_eq_some_iff.1 hnext
  intro following hadvance
  exact Period.closes_le_opens_of_advance (h period hupcoming) walk.interval_pos hadvance

theorem aligned_of_mem_periods (h : walk.Aligned) : ∀ p ∈ walk.periods, p.Aligned := by
  fun_induction periods walk with
  | case1 walk hnext =>
      intro p hp
      cases hp
  | case2 walk period later hnext ih =>
      obtain ⟨hperiod, hlater⟩ := aligned_of_next h hnext
      intro p hp
      rcases List.mem_cons.1 hp with rfl | hp
      · exact hperiod
      · exact ih hlater p hp

theorem le_opens_of_mem_periods (h : walk.Aligned) {second : Int} (hfrom : walk.From second) :
    ∀ p ∈ walk.periods, second ≤ p.opens := by
  fun_induction periods walk generalizing second with
  | case1 walk hnext =>
      intro p hp
      cases hp
  | case2 walk period later hnext ih =>
      obtain ⟨hperiod, hlater⟩ := aligned_of_next h hnext
      have hopens := hfrom period (next?_eq_some_iff.1 hnext).1
      intro p hp
      rcases List.mem_cons.1 hp with rfl | hp
      · exact hopens
      · have hcloses := ih hlater (from_of_next h hnext) p hp
        have := Period.opens_lt_closes hperiod.valid
        omega

theorem pairwise_periods (h : walk.Aligned) :
    walk.periods.Pairwise fun a b => a.closes ≤ b.opens := by
  fun_induction periods walk with
  | case1 walk hnext => exact List.Pairwise.nil
  | case2 walk period later hnext ih =>
      obtain ⟨-, hlater⟩ := aligned_of_next h hnext
      exact List.pairwise_cons.2
        ⟨le_opens_of_mem_periods hlater (from_of_next h hnext), ih hlater⟩

/-! ## Candidates -/

variable {rule : Rule}

/-- What a rule selects along a walk. -/
def candidates (rule : Rule) (walk : Walk) : List DateTime :=
  walk.periods.flatMap rule.expansion

theorem candidates_of_next_eq_none (h : walk.next? = none) : walk.candidates rule = [] := by
  rw [candidates, periods_of_next_eq_none h]
  rfl

theorem candidates_of_next_eq_some (h : walk.next? = some (period, later)) :
    walk.candidates rule = rule.expansion period ++ later.candidates rule := by
  rw [candidates, periods_of_next_eq_some h, List.flatMap_cons]
  rfl

theorem le_second_of_mem_candidates (hrule : rule.Valid) (h : walk.Aligned) {second : Int}
    (hfrom : walk.From second) {t : DateTime} (ht : t ∈ walk.candidates rule) :
    second ≤ t.second := by
  obtain ⟨p, hp, htp⟩ := List.mem_flatMap.1 ht
  have hopens := le_opens_of_mem_periods h hfrom p hp
  have hbounds := Rule.bounds_of_mem_expansion hrule (aligned_of_mem_periods h p hp) htp
  omega

/-- The selections from the periods of a walk ascend across the periods too. -/
theorem pairwise_candidates (hrule : rule.Valid) (h : walk.Aligned) :
    (walk.candidates rule).Pairwise (· < ·) := by
  have haligned := aligned_of_mem_periods h
  refine List.pairwise_flatMap.2 ⟨fun p hp => ?_, ?_⟩
  · exact (Rule.expand_eq_expansion hrule (haligned p hp).valid).2.1
  · refine (pairwise_periods h).imp_of_mem fun {a b} ha hb hclosed t ht u hu => ?_
    have hbefore := Rule.bounds_of_mem_expansion hrule (haligned a ha) ht
    have hafter := Rule.bounds_of_mem_expansion hrule (haligned b hb) hu
    rw [DateTime.lt_iff]
    omega

theorem mapM_expand_periods (hrule : rule.Valid) (h : walk.Aligned) :
    ∃ blocks, walk.periods.mapM rule.expand = .ok blocks ∧
      blocks.flatten = walk.candidates rule := by
  refine ⟨walk.periods.map rule.expansion, mapM_eq_ok_map fun p hp => ?_, ?_⟩
  · exact (Rule.expand_eq_expansion hrule (aligned_of_mem_periods h p hp).valid).1
  · rw [candidates, List.flatMap_def]

end Walk

end Recurrence
