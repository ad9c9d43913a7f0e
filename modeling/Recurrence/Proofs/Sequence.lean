import Recurrence.Occurrences.Cursor
import Recurrence.Proofs.Walk

/-!
# The sequence of occurrences

`Cursor.toList` asks a cursor for its next occurrence until there is none. What
it must answer is known before it is run: `Cursor.remainder` is the candidates
at hand and those along the walk ahead, without the ones before the anchor, cut
by the limit of the rule.

A single step either hands out the first date-time of the remainder or leaves
the remainder as it is, and it finds the end only when nothing remains. That
holds because the candidates at hand ascend and lie before the period to come,
`Cursor.Ready`, which a step keeps. The runs of `next` and of `toList` follow by
the recursion with which they are defined.
-/

namespace Recurrence

namespace Rule

/-- What the limit of a rule leaves of the date-times still to come, when some are handed out. -/
def cut (rule : Rule) (emitted : Nat) (times : List DateTime) : List DateTime :=
  match rule.limit with
  | none => times
  | some (.count count) => times.take (count.toNat - emitted)
  | some (.bound bound) => times.filter (· ≤ bound)

variable {rule : Rule} {emitted : Nat}

theorem cut_sublist (times : List DateTime) : (rule.cut emitted times).Sublist times := by
  unfold cut
  split
  · exact List.Sublist.refl times
  · exact List.take_sublist _ times
  · exact List.filter_sublist

theorem cut_nil : rule.cut emitted [] = [] := by
  unfold cut
  split
  · rfl
  · exact List.take_nil
  · rfl

theorem cut_of_isUsedUp (h : rule.isUsedUp emitted = true) (times : List DateTime) :
    rule.cut emitted times = [] := by
  unfold isUsedUp count at h
  unfold cut
  split
  next hlimit =>
    rw [hlimit] at h
    cases h
  next n hlimit =>
    rw [hlimit] at h
    have hle : n.toNat ≤ emitted := of_decide_eq_true h
    rw [Nat.sub_eq_zero_of_le hle, List.take_zero]
  next bound hlimit =>
    rw [hlimit] at h
    cases h

/-- Nothing is left of date-times that begin after the bound and ascend. -/
theorem cut_of_isPast {t : DateTime} (h : rule.isPast t = true) {times : List DateTime}
    (hle : ∀ u ∈ times, t ≤ u) : rule.cut emitted times = [] := by
  unfold isPast bound at h
  unfold cut
  split
  next hlimit =>
    rw [hlimit] at h
    cases h
  next n hlimit =>
    rw [hlimit] at h
    cases h
  next bound hlimit =>
    rw [hlimit] at h
    have hlt : bound < t := of_decide_eq_true h
    refine List.filter_eq_nil_iff.2 fun u hu => ?_
    rw [decide_eq_true_eq, not_le]
    exact lt_of_lt_of_le hlt (hle u hu)

theorem cut_cons {t : DateTime} (hused : rule.isUsedUp emitted = false)
    (hpast : rule.isPast t = false) (times : List DateTime) :
    rule.cut emitted (t :: times) = t :: rule.cut (emitted + 1) times := by
  unfold isUsedUp count at hused
  unfold isPast bound at hpast
  unfold cut
  split
  · rfl
  next n hlimit =>
    rw [hlimit] at hused
    have hlt : ¬ n.toNat ≤ emitted := of_decide_eq_false hused
    rw [show n.toNat - emitted = (n.toNat - (emitted + 1)) + 1 by omega, List.take_succ_cons]
  next bound hlimit =>
    rw [hlimit] at hpast
    have hle : ¬ bound < t := of_decide_eq_false hpast
    exact List.filter_cons_of_pos (decide_eq_true (not_lt.1 hle))

end Rule

namespace Cursor

/-- The occurrences that a cursor hands out from here to the end. -/
def toList (cursor : Cursor) : Except Fault (List DateTime) :=
  match _h : cursor.next with
  | .error fault => .error fault
  | .ok (none, _) => .ok []
  | .ok (some t, later) => do
      let rest ← later.toList
      return t :: rest
termination_by cursor.rank
decreasing_by exact rank_lt_of_next _h

/-- The candidates ahead of a place, at hand and along the walk, from the anchor on. -/
def Place.ahead (rule : Rule) : Place → List DateTime
  | .positioned walk pending =>
      (pending ++ walk.candidates rule).filter (rule.anchor ≤ ·)
  | .exhausted => []

section Ahead

variable {rule : Rule} {walk : Walk} {t : DateTime} {pending : List DateTime}

theorem Place.mem_of_mem_ahead (h : t ∈ Place.ahead rule (.positioned walk pending)) :
    t ∈ pending ++ walk.candidates rule :=
  List.mem_of_mem_filter h

theorem Place.ahead_cons_of_lt (h : t < rule.anchor) :
    Place.ahead rule (.positioned walk (t :: pending)) =
      Place.ahead rule (.positioned walk pending) := by
  rw [ahead, ahead, List.cons_append, List.filter_cons, if_neg]
  rw [decide_eq_true_eq, not_le]
  exact h

theorem Place.ahead_cons_of_le (h : rule.anchor ≤ t) :
    Place.ahead rule (.positioned walk (t :: pending)) =
      t :: Place.ahead rule (.positioned walk pending) := by
  rw [ahead, ahead, List.cons_append, List.filter_cons, if_pos (decide_eq_true h)]

end Ahead

/-- What a cursor has yet to hand out. -/
def remainder (cursor : Cursor) : List DateTime :=
  cursor.rule.cut cursor.emitted (cursor.place.ahead cursor.rule)

/-- The candidates at hand ascend, and lie before the period that the walk visits next. -/
structure Place.Ordered (walk : Walk) (pending : List DateTime) : Prop where
  aligned : walk.Aligned
  ascending : pending.Pairwise (· < ·)
  before : ∀ t ∈ pending, walk.From (t.second + 1)

/-- A place that a cursor may come to. -/
def Place.Ready : Place → Prop
  | .positioned walk pending => Place.Ordered walk pending
  | .exhausted => True

/-- A cursor of a built rule at a place that it may come to. -/
structure Ready (cursor : Cursor) : Prop where
  rule : cursor.rule.Valid
  place : cursor.place.Ready

theorem Place.Ordered.pairwise {rule : Rule} {walk : Walk} {pending : List DateTime}
    (hrule : rule.Valid) (h : Place.Ordered walk pending) :
    (pending ++ walk.candidates rule).Pairwise (· < ·) := by
  refine List.pairwise_append.2
    ⟨h.ascending, Walk.pairwise_candidates hrule h.aligned, fun t ht u hu => ?_⟩
  have hlater := Walk.le_second_of_mem_candidates hrule h.aligned (h.before t ht) hu
  rw [DateTime.lt_iff]
  omega

theorem Place.Ordered.tail {walk : Walk} {t : DateTime} {pending : List DateTime}
    (h : Place.Ordered walk (t :: pending)) : Place.Ordered walk pending where
  aligned := h.aligned
  ascending := h.ascending.tail
  before u hu := h.before u (List.mem_cons_of_mem t hu)

theorem Place.ordered_of_next {rule : Rule} {walk later : Walk} {period : Period}
    (hrule : rule.Valid) (h : walk.Aligned) (hnext : walk.next? = some (period, later)) :
    Place.Ordered later (rule.expansion period) := by
  obtain ⟨hperiod, hlater⟩ := Walk.aligned_of_next h hnext
  refine ⟨hlater, (Rule.expand_eq_expansion hrule hperiod.valid).2.1, ?_⟩
  intro t ht following hfollowing
  have hcloses := Walk.from_of_next h hnext following hfollowing
  have hbounds := Rule.bounds_of_mem_expansion hrule hperiod ht
  omega

/-! ## One step -/

/-- What a step finds is true of the remainder. -/
def Finds (cursor : Cursor) : Step → Prop
  | .finish => cursor.remainder = []
  | .emit t place =>
      place.Ready ∧ cursor.remainder =
        t :: { cursor with place := place, emitted := cursor.emitted + 1 }.remainder
  | .resume place => place.Ready ∧ cursor.remainder = { cursor with place := place }.remainder

theorem exists_step_exhausted {rule : Rule} {emitted : Nat} :
    ∃ found, step ⟨rule, .exhausted, emitted⟩ = .ok found ∧
      Finds ⟨rule, .exhausted, emitted⟩ found :=
  ⟨.finish, rfl, Rule.cut_nil⟩

/-- With a candidate at hand, a step drops it, hands it out, or finds it after the bound. -/
theorem exists_step_cons {rule : Rule} {walk : Walk} {t : DateTime} {pending : List DateTime}
    {emitted : Nat} (hrule : rule.Valid) (h : Place.Ordered walk (t :: pending))
    (hused : rule.isUsedUp emitted = false) :
    ∃ found, step ⟨rule, .positioned walk (t :: pending), emitted⟩ = .ok found ∧
      Finds ⟨rule, .positioned walk (t :: pending), emitted⟩ found := by
  simp only [step, hused, Bool.false_eq_true, if_false]
  split
  next hearly =>
    refine ⟨_, rfl, h.tail, ?_⟩
    rw [remainder, remainder]
    simp only [Place.ahead_cons_of_lt hearly]
  next hlate =>
    have hahead : Place.ahead rule (.positioned walk (t :: pending)) =
        t :: Place.ahead rule (.positioned walk pending) :=
      Place.ahead_cons_of_le (not_lt.1 hlate)
    split
    next hpast =>
      refine ⟨_, rfl, Rule.cut_of_isPast hpast fun u hu => ?_⟩
      rcases List.mem_cons.1 (Place.mem_of_mem_ahead hu) with rfl | hu
      · exact le_refl _
      · exact le_of_lt (List.rel_of_pairwise_cons (h.pairwise hrule) hu)
    next hwithin =>
      refine ⟨_, rfl, h.tail, ?_⟩
      rw [remainder, remainder]
      simp only [hahead]
      exact Rule.cut_cons hused (Bool.eq_false_iff.2 hwithin) _

/-- With no candidate at hand, a step fetches the next period or finds that none is left. -/
theorem exists_step_nil {rule : Rule} {walk : Walk} {emitted : Nat} (hrule : rule.Valid)
    (h : Place.Ordered walk []) (hused : rule.isUsedUp emitted = false) :
    ∃ found, step ⟨rule, .positioned walk [], emitted⟩ = .ok found ∧
      Finds ⟨rule, .positioned walk [], emitted⟩ found := by
  simp only [step, hused, Bool.false_eq_true, if_false]
  cases hnext : walk.next? with
  | none =>
      refine ⟨_, rfl, ?_⟩
      show rule.cut emitted (Place.ahead rule (.positioned walk [])) = []
      rw [Place.ahead, Walk.candidates_of_next_eq_none hnext]
      exact Rule.cut_nil
  | some visit =>
      obtain ⟨period, later⟩ := visit
      obtain ⟨hperiod, -⟩ := Walk.aligned_of_next h.aligned hnext
      obtain ⟨start, hstart, hopens, hwhole⟩ := Period.exists_start hperiod.valid
      obtain ⟨hexpand, -, -⟩ := Rule.expand_eq_expansion hrule hperiod.valid
      simp only [hstart, hexpand, ok_bind]
      split
      next hpast =>
        -- The period begins after the bound, and nothing along the walk lies before its beginning.
        refine ⟨_, rfl, Rule.cut_of_isPast hpast fun u hu => ?_⟩
        have hfrom : walk.From period.opens := fun p hp => by
          rw [(Walk.next?_eq_some_iff.1 hnext).1] at hp
          cases hp
          exact le_refl _
        have hle := Walk.le_second_of_mem_candidates hrule h.aligned hfrom
          (List.mem_of_mem_filter hu)
        have := hwhole hperiod
        rw [DateTime.le_iff]
        omega
      · refine ⟨_, rfl, Place.ordered_of_next hrule h.aligned hnext, ?_⟩
        rw [remainder, remainder]
        simp only [Place.ahead, Walk.candidates_of_next_eq_some hnext, List.nil_append]

theorem exists_step {cursor : Cursor} (h : cursor.Ready) :
    ∃ found, cursor.step = .ok found ∧ cursor.Finds found := by
  obtain ⟨rule, place, emitted⟩ := cursor
  cases place with
  | exhausted => exact exists_step_exhausted
  | positioned walk pending =>
      cases hused : rule.isUsedUp emitted with
      | true =>
          refine ⟨.finish, ?_, Rule.cut_of_isUsedUp hused _⟩
          simp only [step, hused, if_true]
      | false =>
          cases pending with
          | nil => exact exists_step_nil h.rule h.place hused
          | cons t pending => exact exists_step_cons h.rule h.place hused

theorem finds_of_step {cursor : Cursor} {found : Step} (h : cursor.Ready)
    (hstep : cursor.step = .ok found) : cursor.Finds found := by
  obtain ⟨found', hfound, hfinds⟩ := exists_step h
  rw [hstep] at hfound
  cases hfound
  exact hfinds

/-! ## The whole run -/

/-- At the end nothing remains; otherwise the next occurrence is the first of what remains, and
the cursor behind it has the rest. -/
theorem next_cases {cursor : Cursor} (h : cursor.Ready) :
    (cursor.remainder = [] ∧ cursor.next = .ok (none, { cursor with place := .exhausted })) ∨
      ∃ t later, cursor.next = .ok (some t, later) ∧ later.Ready ∧
        cursor.remainder = t :: later.remainder := by
  fun_induction next cursor with
  | case1 cursor fault hstep =>
      obtain ⟨found, hfound, -⟩ := exists_step h
      rw [hstep] at hfound
      cases hfound
  | case2 cursor hstep =>
      exact Or.inl ⟨finds_of_step h hstep, rfl⟩
  | case3 cursor t place hstep =>
      obtain ⟨hplace, hremainder⟩ := finds_of_step h hstep
      exact Or.inr ⟨t, _, rfl, ⟨h.rule, hplace⟩, hremainder⟩
  | case4 cursor place hstep ih =>
      obtain ⟨hplace, hremainder⟩ := finds_of_step h hstep
      rw [hremainder]
      exact ih ⟨h.rule, hplace⟩

section Next

variable {cursor later : Cursor} {t : DateTime}

theorem next_ne_error (h : cursor.Ready) (fault : Fault) : cursor.next ≠ .error fault := by
  intro hnext
  rcases next_cases h with ⟨-, hnext'⟩ | ⟨t, later, hnext', -, -⟩ <;>
    rw [hnext] at hnext' <;> cases hnext'

theorem remainder_of_next_none (h : cursor.Ready) (hnext : cursor.next = .ok (none, later)) :
    cursor.remainder = [] ∧ later = { cursor with place := .exhausted } := by
  rcases next_cases h with ⟨hnil, hnext'⟩ | ⟨t, later, hnext', -, -⟩ <;>
    rw [hnext] at hnext' <;> cases hnext'
  exact ⟨hnil, rfl⟩

theorem remainder_of_next_some (h : cursor.Ready) (hnext : cursor.next = .ok (some t, later)) :
    later.Ready ∧ cursor.remainder = t :: later.remainder := by
  rcases next_cases h with ⟨-, hnext'⟩ | ⟨t, later, hnext', hlater, hcons⟩ <;>
    rw [hnext] at hnext' <;> cases hnext'
  exact ⟨hlater, hcons⟩

end Next

theorem toList_eq {cursor : Cursor} (h : cursor.Ready) : cursor.toList = .ok cursor.remainder := by
  fun_induction toList cursor with
  | case1 cursor fault hnext => exact absurd hnext (next_ne_error h fault)
  | case2 cursor later hnext => rw [(remainder_of_next_none h hnext).1]
  | case3 cursor t later hnext ih =>
      obtain ⟨hlater, hcons⟩ := remainder_of_next_some h hnext
      rw [ih hlater, ok_bind, hcons]
      rfl

end Cursor

/-! ## From the beginning -/

namespace Rule

/-- What a rule selects along its walk, from its anchor on. -/
def unlimited (rule : Rule) : List DateTime :=
  ((Walk.ofRule rule).candidates rule).filter (rule.anchor ≤ ·)

/-- The occurrences of a rule, from the first to the last. -/
def occurrences (rule : Rule) : List DateTime :=
  rule.cut 0 rule.unlimited

variable {rule : Rule}

theorem ready_cursor (hrule : rule.Valid) : rule.cursor.Ready :=
  ⟨hrule, Walk.aligned_ofRule rule, List.Pairwise.nil, fun _ ht => absurd ht List.not_mem_nil⟩

/-- Asked until the end, the cursor of a built rule hands out the occurrences of the rule. -/
theorem toList_cursor (hrule : rule.Valid) : rule.cursor.toList = .ok rule.occurrences :=
  Cursor.toList_eq (ready_cursor hrule)

theorem pairwise_unlimited (hrule : rule.Valid) : rule.unlimited.Pairwise (· < ·) :=
  (Walk.pairwise_candidates hrule (Walk.aligned_ofRule rule)).filter _

theorem pairwise_occurrences (hrule : rule.Valid) : rule.occurrences.Pairwise (· < ·) :=
  (pairwise_unlimited hrule).sublist (cut_sublist _)

theorem occurrences_of_limit_eq_none (h : rule.limit = none) :
    rule.occurrences = rule.unlimited := by
  rw [occurrences, cut, h]

/-- Without positions, a moment from the anchor on is selected when it matches in some period. -/
theorem mem_unlimited_iff (hrule : rule.Valid) (hpositions : rule.positions = [])
    {t : DateTime} :
    t ∈ rule.unlimited ↔
      rule.anchor ≤ t ∧ ∃ period ∈ (Walk.ofRule rule).periods, rule.Matches period t := by
  have haligned := Walk.aligned_of_mem_periods (Walk.aligned_ofRule rule)
  rw [unlimited, List.mem_filter, decide_eq_true_eq, and_comm, Walk.candidates,
    List.mem_flatMap]
  refine and_congr_right fun _ => exists_congr fun period => and_congr_right fun hperiod => ?_
  exact mem_expansion_iff hrule hpositions (haligned period hperiod).valid

/-- The occurrences of a rule without limit are what its periods expand to, laid end to end in
the order of the walk, without what lies before the anchor; and they ascend. -/
theorem toList_cursor_unlimited {draft : Draft} (hbuild : draft.build = .ok rule)
    (hlimit : rule.limit = none) :
    ∃ blocks, (Walk.ofRule rule).periods.mapM rule.expand = .ok blocks ∧
      rule.cursor.toList = .ok (blocks.flatten.filter (rule.anchor ≤ ·)) ∧
      (blocks.flatten.filter (rule.anchor ≤ ·)).Pairwise (· < ·) := by
  have hrule := valid_of_build hbuild
  obtain ⟨blocks, hblocks, hflatten⟩ :=
    Walk.mapM_expand_periods hrule (Walk.aligned_ofRule rule)
  refine ⟨blocks, hblocks, ?_, ?_⟩
  · rw [toList_cursor hrule, occurrences_of_limit_eq_none hlimit, hflatten]
    rfl
  · rw [hflatten]
    exact pairwise_unlimited hrule

theorem toList_cursor_thanksgiving :
    thanksgiving.draft.build = .ok thanksgiving ∧ thanksgiving.limit = none ∧
      ∃ blocks, (Walk.ofRule thanksgiving).periods.mapM thanksgiving.expand = .ok blocks ∧
        thanksgiving.cursor.toList =
          .ok (blocks.flatten.filter (thanksgiving.anchor ≤ ·)) ∧
        (blocks.flatten.filter (thanksgiving.anchor ≤ ·)).Pairwise (· < ·) :=
  ⟨build_thanksgiving, rfl, toList_cursor_unlimited build_thanksgiving rfl⟩

/-! ## Limits -/

theorem unlimited_with_limit (limit : Option Limit) :
    { rule with limit := limit }.unlimited = rule.unlimited :=
  rfl

/-- A draft without limit that builds builds with each limit as well, to the rule with it. -/
theorem build_with_limit {draft : Draft} (hbuild : draft.build = .ok rule)
    (hlimit : rule.limit = none) :
    (∀ n, { draft with count := some n }.build =
      .ok { rule with limit := some (.count n) }) ∧
    ∀ u, { draft with bound := some u }.build = .ok { rule with limit := some (.bound u) } := by
  have hbuilds := Draft.builds_of_build hbuild
  obtain ⟨hcount, hbound⟩ := Draft.limit_eq_none_iff.1 (hbuilds.limit.trans (by rw [hlimit]))
  refine ⟨fun n => Draft.build_of_builds { hbuilds with limit := ?_ },
    fun u => Draft.build_of_builds { hbuilds with limit := ?_ }⟩
  · rw [Draft.limit, hbound]
  · rw [Draft.limit, hcount]

/-- A count keeps so many of the occurrences from the beginning, and a bound keeps those that are
not after it; nothing else about the sequence changes. -/
theorem toList_cursor_limited {draft : Draft} (hbuild : draft.build = .ok rule)
    (hlimit : rule.limit = none) :
    ∃ all, rule.cursor.toList = .ok all ∧
      (∀ n : UInt32,
        { draft with count := some n }.build = .ok { rule with limit := some (.count n) } ∧
        { rule with limit := some (.count n) }.cursor.toList = .ok (all.take n.toNat)) ∧
      ∀ u : DateTime,
        { draft with bound := some u }.build = .ok { rule with limit := some (.bound u) } ∧
        { rule with limit := some (.bound u) }.cursor.toList = .ok (all.filter (· ≤ u)) := by
  obtain ⟨hcount, hbound⟩ := build_with_limit hbuild hlimit
  refine ⟨rule.unlimited, ?_, fun n => ⟨hcount n, ?_⟩, fun u => ⟨hbound u, ?_⟩⟩
  · rw [toList_cursor (valid_of_build hbuild), occurrences_of_limit_eq_none hlimit]
  · rw [toList_cursor (valid_of_build (hcount n)), occurrences, unlimited_with_limit]
    rfl
  · rw [toList_cursor (valid_of_build (hbound u)), occurrences, unlimited_with_limit]
    rfl

theorem toList_cursor_limited_thanksgiving :
    thanksgiving.draft.build = .ok thanksgiving ∧ thanksgiving.limit = none ∧
      ∃ all, thanksgiving.cursor.toList = .ok all ∧
        { thanksgiving with limit := some (.count 2) }.cursor.toList = .ok (all.take 2) ∧
        { thanksgiving with limit := some (.bound thanksgiving.anchor) }.cursor.toList =
          .ok (all.filter (· ≤ thanksgiving.anchor)) := by
  obtain ⟨all, hall, hcount, hbound⟩ := toList_cursor_limited build_thanksgiving rfl
  exact ⟨build_thanksgiving, rfl, all, hall, (hcount 2).2, (hbound thanksgiving.anchor).2⟩

end Rule

end Recurrence
