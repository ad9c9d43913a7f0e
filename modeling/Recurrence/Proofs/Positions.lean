import Recurrence.Proofs.Expansion

/-!
# Which candidates the positions of a rule pick

`elementsAt` is the meaning of positions: the values of a list at the places that
are wanted, in the order of the list. `Rule.Names` says which places the positions
of a rule name, from either end.

The expansion does not look at every named place. It counts places from both ends,
and leaves out a candidate for which one of the two counts is greater than
`positionLimit`, whichever of them a position names. The positions of a built rule
stay within a year's days, so the place that a position names is always near one
end; the candidate is lost when the other end is far. A day has 86400 seconds, and
a rule that recurs in each of them but wants only the first picks nothing at all.
-/

namespace Recurrence

/-- The values of a list at the places that are wanted, counted from 1. -/
def elementsAt {α : Type} (wanted : Nat → Bool) (values : List α) : List α :=
  (values.zipIdx.filter fun (_, index) => wanted (index + 1)).map Prod.fst

section Elements

variable {α : Type} {wanted others : Nat → Bool} {values : List α}

theorem mem_elementsAt {a : α} :
    a ∈ elementsAt wanted values ↔
      ∃ index : Nat, values[index]? = some a ∧ wanted (index + 1) = true := by
  simp only [elementsAt, List.mem_map, List.mem_filter, Prod.exists,
    List.mk_mem_zipIdx_iff_getElem?]
  constructor
  · rintro ⟨_, index, ⟨hget, hwanted⟩, rfl⟩
    exact ⟨index, hget, hwanted⟩
  · rintro ⟨index, hget, hwanted⟩
    exact ⟨a, index, ⟨hget, hwanted⟩, rfl⟩

theorem elementsAt_sublist : (elementsAt wanted values).Sublist values := by
  have h := (List.filter_sublist (p := fun (_, index) => wanted (index + 1))
    (l := values.zipIdx)).map Prod.fst
  rwa [List.zipIdx_map_fst] at h

/-- To leave places out changes nothing exactly when no place of the list is left out. -/
theorem elementsAt_eq_iff (h : ∀ place, wanted place = true → others place = true) :
    elementsAt wanted values = elementsAt others values ↔
      ∀ place, 1 ≤ place → place ≤ values.length → others place = true →
        wanted place = true := by
  have hsub : (values.zipIdx.filter fun (_, index) => wanted (index + 1)).Sublist
      (values.zipIdx.filter fun (_, index) => others (index + 1)) :=
    List.monotone_filter_right _ fun (_, index) hwanted => h (index + 1) hwanted
  constructor
  · intro heq place hpos hle hplace
    -- Equal lists are equally long, and then the places they come from are the same.
    have hlength := congrArg List.length heq
    rw [elementsAt, elementsAt, List.length_map, List.length_map] at hlength
    have hsame := hsub.eq_of_length hlength
    obtain ⟨index, rfl⟩ : ∃ index, place = index + 1 := ⟨place - 1, by omega⟩
    have hmem : (values[index], index) ∈
        values.zipIdx.filter fun (_, index) => others (index + 1) := by
      rw [List.mem_filter]
      exact ⟨List.mk_mem_zipIdx_iff_getElem?.2 (List.getElem?_eq_getElem hle), hplace⟩
    rw [← hsame, List.mem_filter] at hmem
    exact hmem.2
  · intro hall
    rw [elementsAt, elementsAt]
    refine congrArg _ (List.filter_congr fun (a, index) hmem => ?_)
    have hlt := (List.getElem?_eq_some_iff.1 (List.mk_mem_zipIdx_iff_getElem?.1 hmem)).1
    rw [Bool.eq_iff_iff]
    exact ⟨h (index + 1), hall (index + 1) (by omega) (by omega)⟩

end Elements

namespace Rule

/-- A position of the rule names a place in a list of a length, counted from either end. -/
def Names (rule : Rule) (length place : Nat) : Prop :=
  (place : Int) ∈ rule.positions.map Int16.toInt ∨
    (place : Int) - length - 1 ∈ rule.positions.map Int16.toInt

instance (rule : Rule) (length place : Nat) : Decidable (rule.Names length place) :=
  inferInstanceAs (Decidable (_ ∨ _))

/-- A place is within reach of the positions from both ends. -/
def Reaches (length place : Nat) : Prop :=
  (place : Int) ≤ positionLimit ∧ (length : Int) + 1 - place ≤ positionLimit

instance (length place : Nat) : Decidable (Reaches length place) :=
  inferInstanceAs (Decidable (_ ∧ _))

theorem picks_iff {rule : Rule} (hrule : rule.Valid) {length index : Nat} :
    rule.picks length index = true ↔
      rule.Names length (index + 1) ∧ Reaches length (index + 1) := by
  simp only [picks, Names, Reaches, Bool.and_eq_true, Bool.or_eq_true, decide_eq_true_eq,
    holds_iff hrule.positions.1, List.mem_map]
  rw [show -((length : Int) - index) = ((index + 1 : Nat) : Int) - length - 1 by omega,
    show (length : Int) + 1 - (index + 1 : Nat) = length - index by omega,
    show ((index + 1 : Nat) : Int) = index + 1 by omega]
  exact And.comm

theorem selectPositions_eq {rule : Rule} (hrule : rule.Valid) (h : rule.positions ≠ [])
    (candidates : List DateTime) :
    rule.selectPositions candidates =
      elementsAt (fun place => decide (rule.Names candidates.length place) &&
        decide (Reaches candidates.length place)) candidates := by
  rw [selectPositions, if_neg (by simpa using h), elementsAt, ← List.filterMap_eq_map,
    List.filterMap_filter]
  refine List.filterMap_congr fun entry _ => ?_
  simp only [picks_iff hrule, Bool.and_eq_true, decide_eq_true_eq, Function.comp_apply]

theorem expand_without_positions {rule : Rule} {period : Period} {days : List Date}
    (h : rule.selectDays period = .ok days) :
    { rule with positions := [] }.expand period = .ok (rule.crossClock period days) := by
  have hdays : { rule with positions := [] }.selectDays period = .ok days := h
  rw [expand_eq_ok hdays, selectPositions_of_eq_nil rfl]
  rfl

theorem selectPositions_sublist {rule : Rule} (hrule : rule.Valid) (candidates : List DateTime) :
    (rule.selectPositions candidates).Sublist candidates := by
  by_cases h : rule.positions = []
  · rw [selectPositions_of_eq_nil h]
  · rw [selectPositions_eq hrule h]
    exact elementsAt_sublist

/-- Every named place is within reach exactly when the list is short enough for each position. -/
theorem reaches_iff {rule : Rule} (hrule : rule.Valid) {length : Nat} :
    (∀ place, 1 ≤ place → place ≤ length → rule.Names length place → Reaches length place) ↔
      ∀ n ∈ rule.positions, (length : Int) < positionLimit + n.toInt.natAbs := by
  have hbounds : ∀ n ∈ rule.positions,
      n.toInt ≠ 0 ∧ -366 ≤ n.toInt ∧ n.toInt ≤ 366 := fun n hn => by
    simpa [Field.accepts, Field.isIndex, and_assoc] using hrule.positions.2 n hn
  simp only [Reaches, positionLimit]
  constructor
  · intro h n hn
    have hbound := hbounds n hn
    by_cases hlong : (366 : Int) ≤ length
    · rcases lt_or_gt_of_ne hbound.1 with hneg | hpos
      · have hreach := h (length + 1 + n.toInt).toNat (by omega) (by omega)
          (Or.inr (List.mem_map.2 ⟨n, hn, by omega⟩))
        omega
      · have hreach := h n.toInt.toNat (by omega) (by omega)
          (Or.inl (List.mem_map.2 ⟨n, hn, by omega⟩))
        omega
    · omega
  · intro h place hpos hle hnames
    -- A place named from the start is far from the end if the list is long, and the reverse.
    rcases hnames with hmem | hmem
    · obtain ⟨n, hn, hplace⟩ := List.mem_map.1 hmem
      have hshort := h n hn
      have hbound := hbounds n hn
      omega
    · obtain ⟨n, hn, hplace⟩ := List.mem_map.1 hmem
      have hshort := h n hn
      have hbound := hbounds n hn
      omega

/-- What positions pick from a period: of what the rule without them selects there, in order, the
places that they name and that are within reach. That is all they name exactly where the period
has few enough candidates for each position. -/
theorem expand_positions {draft : Draft} {rule : Rule} {period : Period}
    (hbuild : draft.build = .ok rule) (hpositions : rule.positions ≠ [])
    (hperiod : period.Valid) :
    { draft with positions := [] }.build = .ok { rule with positions := [] } ∧
    ∃ all picked, { rule with positions := [] }.expand period = .ok all ∧
      rule.expand period = .ok picked ∧
      picked = elementsAt (fun place => decide (rule.Names all.length place) &&
        decide (Reaches all.length place)) all ∧
      (picked = elementsAt (fun place => decide (rule.Names all.length place)) all ↔
        ∀ n ∈ rule.positions, (all.length : Int) < positionLimit + n.toInt.natAbs) := by
  have hrule := valid_of_build hbuild
  have hbuilds := Draft.builds_of_build hbuild
  obtain ⟨days, hdays, -, -⟩ := crossClock_spec hrule hperiod
  refine ⟨Draft.build_of_builds { hbuilds with positions := rfl }, rule.crossClock period days, _,
    expand_without_positions hdays, expand_eq_ok hdays,
    selectPositions_eq hrule hpositions _, ?_⟩
  rw [selectPositions_eq hrule hpositions, elementsAt_eq_iff, ← reaches_iff hrule]
  · simp only [Bool.and_eq_true, decide_eq_true_eq]
    constructor
    · intro h place hpos hle hnames
      exact (h place hpos hle hnames).2
    · intro h place hpos hle hnames
      exact ⟨hnames, h place hpos hle hnames⟩
  · intro place h
    rw [Bool.and_eq_true] at h
    exact h.1

/-- Every second of every day, of which the first of a day is wanted. -/
def firstSecond : Rule where
  frequency := .daily
  interval := 1
  interval_pos := Nat.one_pos
  anchor := .ofDate ((Date.ofFields? 1997 9 2).getD .min)
  limit := none
  months := []
  monthDays := []
  yearDays := []
  weekNumbers := []
  weekdays := []
  hours := (List.range 24).map Int8.ofNat
  minutes := (List.range 60).map Int8.ofNat
  seconds := (List.range 60).map Int8.ofNat
  positions := [1]
  weekStart := .monday

theorem build_firstSecond : firstSecond.draft.build = .ok firstSecond := by
  decide +kernel

theorem expand_positions_firstSecond :
    firstSecond.draft.build = .ok firstSecond ∧ firstSecond.positions ≠ [] ∧
      (Period.day firstSecond.anchor.date).Valid ∧
      ∃ all picked,
        { firstSecond with positions := [] }.expand (.day firstSecond.anchor.date) = .ok all ∧
        firstSecond.expand (.day firstSecond.anchor.date) = .ok picked ∧
        (picked = elementsAt (fun place => decide (firstSecond.Names all.length place)) all ↔
          ∀ n ∈ firstSecond.positions,
            (all.length : Int) < positionLimit + n.toInt.natAbs) := by
  have hperiod : (Period.day firstSecond.anchor.date).Valid := trivial
  obtain ⟨-, all, picked, hall, hpicked, -, hiff⟩ :=
    expand_positions build_firstSecond (by decide) hperiod
  exact ⟨build_firstSecond, by decide, hperiod, all, picked, hall, hpicked, hiff⟩

/-- The first second of a day is a candidate and has position 1, but nothing is picked. -/
theorem firstSecond_picks_nothing :
    firstSecond.draft.build = .ok firstSecond ∧
      ∃ all, { firstSecond with positions := [] }.expand (.day firstSecond.anchor.date) = .ok all ∧
        all.length = 86400 ∧ firstSecond.expand (.day firstSecond.anchor.date) = .ok [] ∧
        elementsAt (fun place => decide (firstSecond.Names all.length place)) all ≠ [] := by
  have hrule := valid_of_build build_firstSecond
  have hdays : firstSecond.selectDays (.day firstSecond.anchor.date) =
      .ok [firstSecond.anchor.date] := by decide +kernel
  have hlength : (firstSecond.crossClock (.day firstSecond.anchor.date)
      [firstSecond.anchor.date]).length = 86400 := by
    rw [length_crossClock hrule]
    decide +kernel
  refine ⟨build_firstSecond, _, expand_without_positions hdays, hlength, ?_, ?_⟩
  · rw [expand_eq_ok hdays, selectPositions_eq hrule (by decide), hlength]
    refine congrArg Except.ok (List.eq_nil_iff_forall_not_mem.2 fun t ht => ?_)
    obtain ⟨index, -, hwanted⟩ := mem_elementsAt.1 ht
    rw [Bool.and_eq_true, decide_eq_true_eq, decide_eq_true_eq] at hwanted
    have hreach := hwanted.2
    unfold Reaches positionLimit at hreach
    omega
  · rw [hlength]
    exact List.ne_nil_of_mem (mem_elementsAt.2
      ⟨0, List.getElem?_eq_getElem (by omega), by decide⟩)

end Rule

end Recurrence
