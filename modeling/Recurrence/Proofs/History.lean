import Recurrence.Proofs.Safety

/-!
# What a cursor holds and what it has handed out

Between two calls a cursor holds three things: candidates at hand, the walk ahead, and a
counter. `History` ties them to what has been handed out so far and to the periods that have
been visited. All that a rule selects is what has been handed out followed by what is ahead,
so the former lies before the latter; and what is at hand is the end of what the last visited
period expands to.

Of the four ways to take a step three go on. Dropping a candidate before the anchor changes
neither side, handing one out moves it from one side to the other, and a visit refills what is
at hand from the walk. `keeps_history` is these three cases, and `place_after_calls` is what
it says of the places that a cursor comes to.
-/

namespace Recurrence

namespace Cursor

/-- The periods visited, the candidates at hand and those handed out, as they belong together. -/
structure Place.Reached (rule : Rule) (handed : List DateTime) (walk : Walk)
    (pending : List DateTime) (visited : List Period) : Prop where
  periods : (Walk.ofRule rule).periods = visited ++ walk.periods
  steps : walk.steps = visited.length
  source : pending = [] ∨ ∃ period, visited.getLast? = some period ∧
    pending <:+ rule.expansion period
  unlimited : rule.unlimited = handed ++ Place.ahead rule (.positioned walk pending)

/-- A place that is reached with some date-times handed out; the end is, whatever they are. -/
def Place.History (rule : Rule) (handed : List DateTime) : Place → Prop
  | .positioned walk pending => ∃ visited, Place.Reached rule handed walk pending visited
  | .exhausted => True

/-- What holds of a cursor of a rule that has handed out some date-times. -/
structure History (rule : Rule) (handed : List DateTime) (cursor : Cursor) : Prop where
  ready : cursor.Ready
  sameRule : cursor.rule = rule
  emitted : cursor.emitted = handed.length
  emitted_le : ∀ count, rule.count = some count → cursor.emitted ≤ count.toNat
  place : cursor.place.History rule handed

variable {rule : Rule} {handed : List DateTime} {walk : Walk} {visited : List Period}

theorem history_cursor (hrule : rule.Valid) : History rule [] rule.cursor where
  ready := Rule.ready_cursor hrule
  sameRule := rfl
  emitted := rfl
  emitted_le _ _ := Nat.zero_le _
  place := ⟨[], rfl, rfl, Or.inl rfl, rfl⟩

/-! ## The steps that go on -/

theorem Place.Reached.source_tail {t : DateTime} {pending : List DateTime}
    (h : Place.Reached rule handed walk (t :: pending) visited) :
    ∃ period, visited.getLast? = some period ∧ pending <:+ rule.expansion period := by
  rcases h.source with hnil | ⟨period, hlast, hsuffix⟩
  · cases hnil
  · exact ⟨period, hlast, (List.suffix_cons t pending).trans hsuffix⟩

theorem Place.Reached.drop {t : DateTime} {pending : List DateTime}
    (h : Place.Reached rule handed walk (t :: pending) visited) (hearly : t < rule.anchor) :
    Place.Reached rule handed walk pending visited where
  periods := h.periods
  steps := h.steps
  source := Or.inr h.source_tail
  unlimited := by rw [h.unlimited, Place.ahead_cons_of_lt hearly]

theorem Place.Reached.emit {t : DateTime} {pending : List DateTime}
    (h : Place.Reached rule handed walk (t :: pending) visited) (hlate : rule.anchor ≤ t) :
    Place.Reached rule (handed ++ [t]) walk pending visited where
  periods := h.periods
  steps := h.steps
  source := Or.inr h.source_tail
  unlimited := by
    rw [h.unlimited, Place.ahead_cons_of_le hlate, List.append_assoc, List.singleton_append]

theorem Place.Reached.fetch {later : Walk} {period : Period}
    (h : Place.Reached rule handed walk [] visited) (hnext : walk.next? = some (period, later)) :
    Place.Reached rule handed later (rule.expansion period) (visited ++ [period]) where
  periods := by
    rw [h.periods, Walk.periods_of_next_eq_some hnext, List.append_assoc, List.singleton_append]
  steps := by
    rw [List.length_append, List.length_singleton, ← h.steps, (Walk.next?_eq_some_iff.1 hnext).2]
  source := Or.inr ⟨period, List.getLast?_concat, List.suffix_refl _⟩
  unlimited := by
    rw [h.unlimited]
    simp only [Place.ahead, Walk.candidates_of_next_eq_some hnext, List.nil_append]

theorem keeps_history (rule : Rule) : Keeps (History rule) where
  resume {handed cursor place} h hstep := by
    have hready : place.Ready := (finds_of_step h.ready hstep).1
    have hplace : place.History rule handed := by
      have hhistory := h.place
      obtain rfl := h.sameRule
      cases takes_of_step hstep with
      | drop hcursor _ hearly =>
          rw [hcursor] at hhistory
          obtain ⟨visited, hreached⟩ := hhistory
          exact ⟨visited, hreached.drop hearly⟩
      | @fetch _ _ period _ pending hcursor _ hnext _ _ hexpand =>
          rw [hcursor] at hhistory
          obtain ⟨visited, hreached⟩ := hhistory
          have hpending : cursor.rule.expansion period = pending := by
            rw [Rule.expansion, hexpand]
          rw [← hpending]
          exact ⟨_, hreached.fetch hnext⟩
    exact ⟨⟨h.ready.rule, hready⟩, h.sameRule, h.emitted, h.emitted_le, hplace⟩
  emit {handed cursor t place} h hstep := by
    have hready : place.Ready := (finds_of_step h.ready hstep).1
    have hhistory := h.place
    obtain rfl := h.sameRule
    cases takes_of_step hstep with
    | emit hcursor hroom hlate =>
        rw [hcursor] at hhistory
        obtain ⟨visited, hreached⟩ := hhistory
        refine ⟨⟨h.ready.rule, hready⟩, rfl, ?_, ?_, visited, hreached.emit (not_lt.1 hlate)⟩
        · rw [List.length_append, List.length_singleton, ← h.emitted]
        · intro count hcount
          rw [Rule.isUsedUp, hcount] at hroom
          exact Nat.lt_of_not_le (of_decide_eq_false hroom)
  finish h := ⟨⟨h.ready.rule, trivial⟩, h.sameRule, h.emitted, h.emitted_le, trivial⟩

/-! ## What the places have in common -/

theorem Place.Reached.lt_of_mem {pending : List DateTime} (hrule : rule.Valid)
    (h : Place.Reached rule handed walk pending visited) {t u : DateTime} (ht : t ∈ handed)
    (hu : u ∈ pending) (hanchor : rule.anchor ≤ u) : t < u := by
  have hascending := Rule.pairwise_unlimited hrule
  rw [h.unlimited] at hascending
  have hahead : u ∈ Place.ahead rule (.positioned walk pending) :=
    List.mem_filter.2 ⟨List.mem_append_left _ hu, decide_eq_true hanchor⟩
  exact (List.pairwise_append.1 hascending).2.2 t ht u hahead

theorem Place.Ordered.lt_start {pending : List DateTime} (h : Place.Ordered walk pending)
    {period : Period} (hupcoming : walk.upcoming = some period) :
    ∃ start, period.start = .ok start ∧ ∀ t ∈ pending, t < start := by
  obtain ⟨start, hstart, hopens, -⟩ := Period.exists_start (h.aligned period hupcoming).valid
  refine ⟨start, hstart, fun t ht => ?_⟩
  have hbefore := h.before t ht period hupcoming
  rw [DateTime.lt_iff]
  omega

end Cursor

namespace Rule

variable {rule : Rule}

/-- However often the cursor of a built rule has been called, its counter is the number of
occurrences that it has handed out. A count limits that number, and sixty-four bits hold it. The
candidates at hand ascend, belong to the period that was visited last, and are before the period
visited next; those from the anchor on are behind everything that has been handed out. -/
theorem place_after_calls {draft : Draft} (hbuild : draft.build = .ok rule) (n : Nat) :
    ∃ answers later, rule.cursor.calls n = .ok (answers, later) ∧
      later.emitted = answers.reduceOption.length ∧
      later.emitted < FixedWidth.Width.word64.greatest ∧
      (∀ count, rule.count = some count → later.emitted ≤ count.toNat) ∧
      ∀ walk pending, later.place = .positioned walk pending →
        pending.Pairwise (· < ·) ∧
        (∃ visited, (Walk.ofRule rule).periods = visited ++ walk.periods ∧
          walk.steps = visited.length ∧
          (pending ≠ [] → ∃ period found, visited.getLast? = some period ∧
            rule.expand period = .ok found ∧ pending <:+ found)) ∧
        (∀ t ∈ answers.reduceOption, ∀ u ∈ pending, rule.anchor ≤ u → t < u) ∧
        ∀ period, walk.upcoming = some period →
          ∃ start, period.start = .ok start ∧ ∀ t ∈ pending, t < start := by
  have hrule := valid_of_build hbuild
  obtain ⟨later, hcalls, hcalled⟩ := exists_calls hrule n
  have hhistory := (Cursor.keeps_history rule).after_calls (Cursor.history_cursor hrule) hcalls
  have hemitted : later.emitted < FixedWidth.Width.word64.greatest := by
    have hcount := hcalled.emitted
    have hlength := length_occurrences_lt hrule
    show (later.emitted : Int) < 18446744073709551615
    omega
  refine ⟨_, later, hcalls, hhistory.emitted, hemitted, hhistory.emitted_le, ?_⟩
  intro walk pending hlater
  have hready := hhistory.ready.place
  have hplace := hhistory.place
  rw [hlater] at hready hplace
  have hordered : Cursor.Place.Ordered walk pending := hready
  obtain ⟨visited, hreached⟩ := hplace
  refine ⟨hordered.ascending, ⟨visited, hreached.periods, hreached.steps, fun hne => ?_⟩,
    fun t ht u hu hanchor => hreached.lt_of_mem hrule ht hu hanchor,
    fun period hupcoming => hordered.lt_start hupcoming⟩
  obtain ⟨period, hlast, hsuffix⟩ := hreached.source.resolve_left hne
  have hmem : period ∈ (Walk.ofRule rule).periods := by
    rw [hreached.periods]
    exact List.mem_append_left _ (List.mem_of_getLast? hlast)
  have haligned := Walk.aligned_of_mem_periods (Walk.aligned_ofRule rule) period hmem
  exact ⟨period, _, hlast, (expand_eq_expansion hrule haligned.valid).1, hsuffix⟩

/-- An hour of a day in January 2024. -/
def januaryHour (hour : Int) : DateTime :=
  (DateTime.ofClock? ((Date.ofFields? 2024 1 8).getD .min) hour 0 0 0).getD (.ofDate .min)

/-- Twice a day, from a morning on and three times in all. -/
def twiceDaily : Rule where
  frequency := .daily
  interval := 1
  interval_pos := Nat.one_pos
  anchor := januaryHour 9
  limit := some (.count 3)
  months := []
  monthDays := []
  yearDays := []
  weekNumbers := []
  weekdays := []
  hours := [9, 17]
  minutes := []
  seconds := []
  positions := []
  weekStart := .monday

theorem build_twiceDaily : twiceDaily.draft.build = .ok twiceDaily := rfl

theorem exists_calls_twiceDaily :
    ∃ walk, twiceDaily.cursor.calls 1 = .ok ([some (januaryHour 9)],
      ⟨twiceDaily, .positioned walk [januaryHour 17], 1⟩) := by
  obtain ⟨walk, hlimit⟩ : ∃ walk, Cursor.nextWithin Cursor.step 2 twiceDaily.cursor =
      some (.ok (some (januaryHour 9), ⟨twiceDaily, .positioned walk [januaryHour 17], 1⟩)) :=
    ⟨_, rfl⟩
  refine ⟨walk, ?_⟩
  simp only [Cursor.calls, ok_bind, Cursor.next_of_nextWithin hlimit]
  rfl

theorem place_after_calls_twiceDaily :
    twiceDaily.draft.build = .ok twiceDaily ∧
      ∃ walk, twiceDaily.cursor.calls 1 = .ok ([some (januaryHour 9)],
          ⟨twiceDaily, .positioned walk [januaryHour 17], 1⟩) ∧
        januaryHour 9 < januaryHour 17 ∧
        ∃ period found, twiceDaily.expand period = .ok found ∧ [januaryHour 17] <:+ found := by
  obtain ⟨walk, hcalls⟩ := exists_calls_twiceDaily
  obtain ⟨answers, later, hcalls', -, -, -, hplace⟩ := place_after_calls build_twiceDaily 1
  rw [hcalls] at hcalls'
  cases hcalls'
  obtain ⟨-, ⟨visited, -, -, hsource⟩, hbehind, -⟩ := hplace walk _ rfl
  obtain ⟨period, found, -, hexpand, hsuffix⟩ := hsource (List.cons_ne_nil _ _)
  exact ⟨build_twiceDaily, walk, hcalls,
    hbehind _ List.mem_cons_self _ List.mem_cons_self (by decide +kernel),
    period, found, hexpand, hsuffix⟩

end Rule

end Recurrence
