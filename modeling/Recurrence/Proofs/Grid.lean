import Recurrence.Proofs.Steps
import Recurrence.Proofs.Walk

/-!
# The grid of a walk

A walk visits, as its `k`-th period, the one `k` intervals from the first, and it
ends where the calendar does (`Walk.getElem?_periods`). So whether a moment is
visited is a question about numbers: it is when the units to it are a multiple of
the interval, `Walk.exists_contains_iff`. A rule with an interval of one leaves
nothing out from its anchor on.

`Rule.periods_divide_time` puts this together: the periods of a rule are those of the
same rule with an interval of one, some of them left out, and the latter divide all of
time from where the first of them begins.
-/

namespace Recurrence

namespace Walk

variable {walk : Walk}

theorem next?_eq_none_iff : walk.next? = none ↔ walk.upcoming = none := by
  unfold next?
  cases walk.upcoming <;> simp

theorem getElem?_periods (h : walk.Aligned) (k : Nat) :
    walk.periods[k]? = walk.upcoming.bind (·.advance (k * walk.interval)) := by
  fun_induction periods walk generalizing k with
  | case1 walk hnext =>
      rw [next?_eq_none_iff.1 hnext, List.getElem?_nil, Option.bind_none]
  | case2 walk period later hnext ih =>
      obtain ⟨hperiod, hlater⟩ := aligned_of_next h hnext
      obtain ⟨hupcoming, rfl⟩ := next?_eq_some_iff.1 hnext
      rw [hupcoming, Option.bind_some]
      cases k with
      | zero => rw [List.getElem?_cons_zero, Nat.zero_mul, Period.advance_zero hperiod.valid]
      | succ k =>
          rw [List.getElem?_cons_succ, ih hlater k, Nat.succ_mul,
            Nat.add_comm (k * walk.interval), Period.advance_add hperiod.valid]

theorem mem_periods_iff (h : walk.Aligned) {first : Period} (hfirst : walk.upcoming = some first)
    {period : Period} :
    period ∈ walk.periods ↔ ∃ k, first.advance (k * walk.interval) = some period := by
  simp only [List.mem_iff_getElem?, getElem?_periods h, hfirst, Option.bind_some]

theorem exists_contains_iff (h : walk.Aligned) {first : Period}
    (hfirst : walk.upcoming = some first) {t : DateTime} (hopens : first.opens ≤ t.second) :
    (∃ period ∈ walk.periods, period.Contains t) ↔ walk.interval ∣ first.unitsTo t := by
  have haligned := h first hfirst
  simp only [mem_periods_iff h hfirst]
  constructor
  · rintro ⟨period, ⟨k, hadvance⟩, hcontains⟩
    obtain ⟨-, hunits⟩ := (Period.contains_advance_iff haligned hadvance).1 hcontains
    rw [hunits]
    exact Nat.dvd_mul_left walk.interval k
  · rintro ⟨k, hunits⟩
    obtain ⟨period, hadvance, hcontains⟩ := Period.exists_advance_unitsTo haligned hopens
    rw [hunits, Nat.mul_comm] at hadvance
    exact ⟨period, ⟨k, hadvance⟩, hcontains⟩

/-- Where no unit is left out, a moment lies in one period: the one that is as many units away
as the moment is. -/
theorem existsUnique_contains (h : walk.Aligned) (hinterval : walk.interval = 1)
    {first : Period} (hfirst : walk.upcoming = some first) {t : DateTime}
    (hopens : first.opens ≤ t.second) :
    ∃! k : Nat, ∃ period : Period, walk.periods[k]? = some period ∧ period.Contains t := by
  have haligned := h first hfirst
  simp only [getElem?_periods h, hfirst, hinterval, Option.bind_some, Nat.mul_one]
  obtain ⟨period, hadvance, hcontains⟩ := Period.exists_advance_unitsTo haligned hopens
  refine ⟨first.unitsTo t, ⟨period, hadvance, hcontains⟩, ?_⟩
  rintro k ⟨other, hother, hholds⟩
  exact ((Period.contains_advance_iff haligned hother).1 hholds).2.symm

/-- A moment of one period of a walk is earlier than the start of each period behind it. -/
theorem lt_start_of_getElem? (h : walk.Aligned) {j k : Nat} (hjk : j < k) {p q : Period}
    (hp : walk.periods[j]? = some p) (hq : walk.periods[k]? = some q) :
    ∃ start, q.start = .ok start ∧ ∀ t, p.Contains t → t < start := by
  obtain ⟨hj, hjp⟩ := List.getElem?_eq_some_iff.1 hp
  obtain ⟨hk, hkq⟩ := List.getElem?_eq_some_iff.1 hq
  have hcloses := List.pairwise_iff_getElem.1 (pairwise_periods h) j k hj hk hjk
  rw [hjp, hkq] at hcloses
  have hpaligned := aligned_of_mem_periods h p (List.mem_of_getElem? hp)
  have hqaligned := aligned_of_mem_periods h q (List.mem_of_getElem? hq)
  obtain ⟨start, hstart, hopens, -⟩ := Period.exists_start hqaligned.valid
  refine ⟨start, hstart, fun t ht => ?_⟩
  have hbounds := (Period.contains_iff hpaligned).1 ht
  rw [DateTime.lt_iff]
  omega

end Walk

namespace Rule

variable {rule : Rule} {t : DateTime}

/-- The period with which the walk of a rule begins. -/
def firstPeriod (rule : Rule) : Period :=
  Period.containing rule.frequency rule.anchor rule.weekStart

theorem aligned_firstPeriod (rule : Rule) : rule.firstPeriod.Aligned :=
  Period.aligned_containing rule.frequency rule.anchor rule.weekStart

theorem opens_firstPeriod_le (h : rule.anchor ≤ t) : rule.firstPeriod.opens ≤ t.second := by
  have hanchor := (Period.contains_iff rule.aligned_firstPeriod).1
    (Period.contains_containing rule.frequency rule.anchor rule.weekStart)
  rw [DateTime.le_iff] at h
  omega

theorem exists_visited_iff (h : rule.anchor ≤ t) :
    (∃ period ∈ (Walk.ofRule rule).periods, period.Contains t) ↔
      rule.interval.toNat ∣ rule.firstPeriod.unitsTo t :=
  Walk.exists_contains_iff (Walk.aligned_ofRule rule) rfl (opens_firstPeriod_le h)

theorem exists_visited (hinterval : rule.interval = 1) (h : rule.anchor ≤ t) :
    ∃ period ∈ (Walk.ofRule rule).periods, period.Contains t := by
  rw [exists_visited_iff h, hinterval]
  exact Nat.one_dvd _

theorem frequency_of_advance_firstPeriod {period : Period} {units : Nat}
    (h : rule.firstPeriod.advance units = some period) : period.frequency = rule.frequency :=
  (Period.frequency_of_advance h).trans
    (Period.frequency_containing rule.frequency rule.anchor rule.weekStart)

theorem frequency_of_mem_periods {period : Period} (h : period ∈ (Walk.ofRule rule).periods) :
    period.frequency = rule.frequency := by
  obtain ⟨k, hadvance⟩ := (Walk.mem_periods_iff (Walk.aligned_ofRule rule) rfl).1 h
  exact frequency_of_advance_firstPeriod hadvance

theorem getElem?_periods_ofRule (rule : Rule) (k : Nat) :
    (Walk.ofRule rule).periods[k]? = rule.firstPeriod.advance (k * rule.interval.toNat) := by
  rw [Walk.getElem?_periods (Walk.aligned_ofRule rule)]
  rfl

/-- A rule with an interval of one visits periods that divide time: every moment, from the start
of the first of them on, lies in exactly one. With another interval the same rule visits those of
them that are so many units apart, and ends with them. And what lies in a period is earlier than
the start of the next one. -/
theorem periods_divide_time {draft : Draft} (hbuild : draft.build = .ok rule) :
    (rule.interval = 1 → ∃ first start, (Walk.ofRule rule).periods[0]? = some first ∧
      first.start = .ok start ∧ ∀ t, start ≤ t → ∃! k : Nat, ∃ period : Period,
        (Walk.ofRule rule).periods[k]? = some period ∧ period.Contains t) ∧
    (∃ single, { draft with interval := some 1 }.build = .ok single ∧ ∀ k,
      (Walk.ofRule rule).periods[k]? =
        (Walk.ofRule single).periods[k * rule.interval.toNat]?) ∧
    ∀ k p q, (Walk.ofRule rule).periods[k]? = some p →
      (Walk.ofRule rule).periods[k + 1]? = some q →
        ∃ start, q.start = .ok start ∧ ∀ t, p.Contains t → t < start := by
  have haligned := Walk.aligned_ofRule rule
  refine ⟨fun hinterval => ?_, ?_, fun k p q => ?_⟩
  · obtain ⟨start, hstart, hopens, hwhole⟩ := Period.exists_start rule.aligned_firstPeriod.valid
    refine ⟨rule.firstPeriod, start, ?_, hstart, fun t ht => ?_⟩
    · rw [getElem?_periods_ofRule, Nat.zero_mul, Period.advance_zero rule.aligned_firstPeriod.valid]
    · have hnano := hwhole rule.aligned_firstPeriod
      rw [DateTime.le_iff] at ht
      exact Walk.existsUnique_contains haligned (congrArg UInt32.toNat hinterval) rfl
        (show rule.firstPeriod.opens ≤ t.second by omega)
  · refine ⟨{ rule with interval := 1, interval_pos := Nat.one_pos },
      Draft.build_of_builds { Draft.builds_of_build hbuild with interval := rfl }, fun k => ?_⟩
    rw [getElem?_periods_ofRule, getElem?_periods_ofRule]
    show _ = rule.firstPeriod.advance (k * rule.interval.toNat * 1)
    rw [Nat.mul_one]
  · exact Walk.lt_start_of_getElem? haligned (Nat.lt_succ_self k)

/-- The same Thursday of November, but in every fourth year only. -/
def fourthYears : Rule :=
  { thanksgiving with
    interval := 4
    interval_pos := by decide }

theorem build_fourthYears : fourthYears.draft.build = .ok fourthYears :=
  rfl

theorem periods_divide_time_thanksgiving :
    (thanksgiving.draft.build = .ok thanksgiving ∧ thanksgiving.interval = 1 ∧
      ∃ first start, (Walk.ofRule thanksgiving).periods[0]? = some first ∧
        first.start = .ok start ∧ ∀ t, start ≤ t → ∃! k : Nat, ∃ period : Period,
          (Walk.ofRule thanksgiving).periods[k]? = some period ∧ period.Contains t) ∧
    fourthYears.draft.build = .ok fourthYears ∧
      (∀ k : Nat, (Walk.ofRule fourthYears).periods[k]? =
        (Walk.ofRule thanksgiving).periods[k * 4]?) ∧
      ∀ k p q, (Walk.ofRule fourthYears).periods[k]? = some p →
        (Walk.ofRule fourthYears).periods[k + 1]? = some q →
          ∃ start, q.start = .ok start ∧ ∀ t, p.Contains t → t < start := by
  obtain ⟨-, ⟨single, hsingle, hsteps⟩, hlater⟩ := periods_divide_time build_fourthYears
  obtain rfl : thanksgiving = single := Except.ok.inj (build_thanksgiving.symm.trans hsingle)
  exact ⟨⟨build_thanksgiving, rfl, (periods_divide_time build_thanksgiving).1 rfl⟩,
    build_fourthYears, hsteps, hlater⟩

end Rule

end Recurrence
