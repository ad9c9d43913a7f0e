import Recurrence.Proofs.Build

/-!
# What is wrong with a draft

Building a rule runs eleven checks, one behind the other, and the first that fails
decides the error. `Draft.complaints` is everything that is wrong with a draft: what
the checks have to say, in their order, each about every value that it refuses. A
draft without complaints is one that is `Acceptable`, and `reports_build` says that
any other is refused with the first of them.

A sequence of checks is followed through its binds by `Reports`, which says of a
computation that it fails with the first of some complaints and, where there are
none, does not fail. A bind puts the complaints of its second part behind those of
the first. That is all there is to the order of the checks.
-/

namespace Recurrence

/-! ## Checks and complaints -/

/-- A computation fails with the first of some complaints, and without any it does not fail. -/
def Reports {ε α : Type} (result : Except ε α) (complaints : List ε) : Prop :=
  ∀ e, result = .error e ↔ complaints.head? = some e

namespace Reports

variable {ε α β : Type} {result : Except ε α} {complaints others : List ε}

theorem ok (a : α) : Reports (.ok a : Except ε α) [] := by
  intro e
  exact iff_of_false (fun h => by cases h) (fun h => by cases h)

theorem exists_ok_iff (h : Reports result complaints) :
    (∃ a, result = .ok a) ↔ complaints = [] := by
  rw [← List.head?_eq_none_iff, Option.eq_none_iff_forall_ne_some]
  cases result with
  | ok a => exact iff_of_true ⟨a, rfl⟩ fun e he => by cases (h e).2 he
  | error e =>
      refine iff_of_false ?_ fun hnone => hnone e ((h e).1 rfl)
      rintro ⟨a, ha⟩
      cases ha

theorem bind (h : Reports result complaints) {next : α → Except ε β}
    (hnext : ∀ a, result = .ok a → Reports (next a) others) :
    Reports (result >>= next) (complaints ++ others) := by
  intro e
  cases result with
  | ok a =>
      rw [h.exists_ok_iff.1 ⟨a, rfl⟩, List.nil_append]
      exact hnext a rfl e
  | error first =>
      rw [List.head?_append, (h first).1 rfl, Option.some_or, Option.some_inj]
      show Except.error first = .error e ↔ first = e
      rw [Except.error.injEq]

theorem mapM {f : α → Except ε β} {about : α → List ε} {values : List α}
    (h : ∀ a ∈ values, Reports (f a) (about a)) :
    Reports (values.mapM f) (values.flatMap about) := by
  induction values with
  | nil => exact ok []
  | cons a values ih =>
      rw [List.mapM_cons, List.flatMap_cons]
      refine (h a List.mem_cons_self).bind fun b _ => ?_
      rw [← List.append_nil (values.flatMap about)]
      exact (ih fun c hc => h c (List.mem_cons_of_mem a hc)).bind fun rest _ => ok (b :: rest)

end Reports

namespace Field

/-- The ranges of the values that a field admits. -/
def ranges : Field → List (Int × Int)
  | month => [(1, 12)]
  | monthDay => [(-31, -1), (1, 31)]
  | yearDay | position => [(-366, -1), (1, 366)]
  | weekNumber | weekday => [(-53, -1), (1, 53)]
  | hour => [(0, 23)]
  | minute | second => [(0, 59)]

/-- A value lies in one of the ranges of a field. -/
def Admits (field : Field) (value : Int) : Prop :=
  ∃ range ∈ field.ranges, range.1 ≤ value ∧ value ≤ range.2

instance (field : Field) (value : Int) : Decidable (field.Admits value) :=
  inferInstanceAs (Decidable (∃ range ∈ field.ranges, range.1 ≤ value ∧ value ≤ range.2))

theorem accepts_iff {field : Field} {value : Int} :
    field.accepts value = true ↔ field.Admits value := by
  cases field <;> simp [accepts, isIndex, Admits, ranges] <;> omega

/-- The fields in the order in which they are checked. -/
def inOrder : List Field :=
  [weekday, month, monthDay, yearDay, weekNumber, hour, minute, second, position]

theorem mem_inOrder (field : Field) : field ∈ inOrder := by
  cases field <;> decide

/-- The errors about a list of values: one for each that the field does not admit, in their order. -/
def complaints (field : Field) (values : List Int) : List RuleError :=
  (values.filter fun value => ¬ field.Admits value).map (.outOfRange field)

theorem complaints_eq_nil_iff {field : Field} {values : List Int} :
    field.complaints values = [] ↔ ∀ value ∈ values, field.Admits value := by
  simp only [complaints, List.map_eq_nil_iff, List.filter_eq_nil_iff, decide_eq_true_eq,
    Decidable.not_not]

theorem reports_check {α : Type} (field : Field) (key : α → Int) (values : List α) :
    Reports (field.check key values) (field.complaints (values.map key)) := by
  have htest : ((fun value => decide (¬ field.Admits value)) ∘ key) =
      fun value => !field.accepts (key value) := by
    funext value
    simp only [Function.comp_apply, ← accepts_iff, decide_not, Bool.decide_eq_true]
  intro e
  rw [complaints, List.head?_map, List.head?_filter, List.find?_map, htest, check]
  cases values.find? fun value => !field.accepts (key value) with
  | none => exact iff_of_false (fun h => by cases h) (fun h => by cases h)
  | some value =>
      simp only [Option.map_some, Option.some_inj, Except.error.injEq]

end Field

namespace WeekdayEntry

/-- An entry without its ordinal where that is zero. -/
def normal (entry : WeekdayEntry) : WeekdayEntry :=
  if entry.ordinal = some 0 then ⟨none, entry.weekday⟩ else entry

theorem ordinal_normal_ne_zero (entry : WeekdayEntry) : entry.normal.ordinal ≠ some 0 := by
  unfold normal
  split
  · intro h
    cases h
  next hne => exact hne

/-- The ordinal that is checked; an entry without one and an entry with the ordinal zero have
none. -/
def place? (entry : WeekdayEntry) : Option Int :=
  entry.normal.ordinal.map Int8.toInt

theorem check_eq (entry : WeekdayEntry) :
    entry.check = match entry.place? with
      | none => .ok entry.normal
      | some place =>
          if Field.weekday.Admits place then .ok entry.normal
          else .error (.outOfRange .weekday place) := by
  obtain ⟨ordinal, weekday⟩ := entry
  cases ordinal with
  | none => rfl
  | some n =>
      by_cases hzero : n = 0
      · rw [hzero]
        rfl
      · have hint : n.toInt ≠ 0 := fun h => hzero (Int8.toInt_inj.1 h)
        have hkept : normal ⟨some n, weekday⟩ = ⟨some n, weekday⟩ :=
          if_neg fun h => hzero (Option.some_inj.1 h)
        simp only [check, if_neg hint, place?, hkept, Option.map_some, Field.accepts_iff]

theorem reports_check (entry : WeekdayEntry) :
    Reports entry.check (Field.weekday.complaints entry.place?.toList) := by
  rw [check_eq]
  cases entry.place? with
  | none => exact Reports.ok _
  | some place =>
      intro e
      by_cases hadmits : Field.weekday.Admits place
      · simp [Field.complaints, hadmits]
      · simp [Field.complaints, hadmits]

theorem check_eq_ok_iff {entry kept : WeekdayEntry} :
    entry.check = .ok kept ↔
      (∀ place ∈ entry.place?, Field.weekday.Admits place) ∧ kept = entry.normal := by
  rw [check_eq]
  cases entry.place? with
  | none => simp [eq_comm]
  | some place =>
      by_cases hadmits : Field.weekday.Admits place
      · simp [hadmits, eq_comm]
      · simp [hadmits]

/-- The order of the entries of a rule: by ordinal, those without one first, then by weekday. -/
def Precedes (a b : WeekdayEntry) : Prop :=
  match a.ordinal, b.ordinal with
  | none, none => a.weekday.offset < b.weekday.offset
  | none, some _ => True
  | some _, none => False
  | some m, some n => m < n ∨ m = n ∧ a.weekday.offset < b.weekday.offset

instance : LT WeekdayEntry := ⟨Precedes⟩

theorem lt_iff_key_lt {a b : WeekdayEntry} : a < b ↔ a.key < b.key := by
  show a.Precedes b ↔ _
  obtain ⟨m, v⟩ := a
  obtain ⟨n, w⟩ := b
  have hv := v.offset_nonneg
  have hv' := v.offset_lt
  have hw := w.offset_nonneg
  have hw' := w.offset_lt
  cases m with
  | none =>
      cases n with
      | none =>
          simp only [Precedes, key]
          omega
      | some n =>
          have := n.le_toInt
          simp only [Precedes, key, true_iff]
          omega
  | some m =>
      have := m.le_toInt
      cases n with
      | none =>
          simp only [Precedes, key, false_iff]
          omega
      | some n =>
          simp only [Precedes, key, Int8.lt_iff_toInt_lt, ← Int8.toInt_inj]
          omega

end WeekdayEntry

namespace Draft

/-- The numbers of a draft that are checked against the ranges of a field. -/
def numbers (draft : Draft) : Field → List Int
  | .month => draft.months.map Int8.toInt
  | .monthDay => draft.monthDays.map Int8.toInt
  | .yearDay => draft.yearDays.map Int16.toInt
  | .weekNumber => draft.weekNumbers.map Int8.toInt
  | .weekday => draft.weekdays.filterMap WeekdayEntry.place?
  | .hour => draft.hours.map Int8.toInt
  | .minute => draft.minutes.map Int8.toInt
  | .second => draft.seconds.map Int8.toInt
  | .position => draft.positions.map Int16.toInt

/-- Everything that is wrong with a draft, in the order in which it is looked for. -/
def complaints (draft : Draft) : List RuleError :=
  (if draft.interval = some 0 then [.invalidInterval 0] else []) ++
    ((if draft.count.isSome ∧ draft.bound.isSome then [.countWithUntil] else []) ++
      Field.inOrder.flatMap fun field => field.complaints (draft.numbers field))

/-- What a draft must be like to be a rule. -/
structure Acceptable (draft : Draft) : Prop where
  interval : ∀ n, draft.interval = some n → 1 ≤ n.toNat
  limit : draft.count = none ∨ draft.bound = none
  numbers : ∀ field, ∀ value ∈ draft.numbers field, field.Admits value

theorem complaints_eq_nil_iff {draft : Draft} : draft.complaints = [] ↔ draft.Acceptable := by
  have hinterval : draft.interval ≠ some 0 ↔ ∀ n, draft.interval = some n → 1 ≤ n.toNat := by
    constructor
    · intro hne n hn
      rw [Nat.one_le_iff_ne_zero]
      intro hzero
      exact hne (hn.trans (congrArg some (UInt32.toNat_inj.1 hzero)))
    · intro hpos hzero
      exact absurd (hpos 0 hzero) (by decide)
  have hlimit : ¬ (draft.count.isSome ∧ draft.bound.isSome) ↔
      draft.count = none ∨ draft.bound = none := by
    cases draft.count <;> cases draft.bound <;> simp
  have hnumbers : (∀ field ∈ Field.inOrder, field.complaints (draft.numbers field) = []) ↔
      ∀ field, ∀ value ∈ draft.numbers field, field.Admits value := by
    simp only [Field.complaints_eq_nil_iff, Field.mem_inOrder, forall_const]
  rw [complaints, List.append_eq_nil_iff, List.append_eq_nil_iff, List.flatMap_eq_nil_iff,
    ite_eq_right_iff, ite_eq_right_iff, hnumbers]
  simp only [List.cons_ne_nil, imp_false]
  rw [← ne_eq, hinterval, hlimit]
  exact ⟨fun ⟨h, h', h''⟩ => ⟨h, h', h''⟩, fun h => ⟨h.interval, h.limit, h.numbers⟩⟩

theorem reports_limit (draft : Draft) :
    Reports draft.limit
      (if draft.count.isSome ∧ draft.bound.isSome then [.countWithUntil] else []) := by
  intro e
  unfold limit
  cases draft.count <;> cases draft.bound <;> simp

theorem reports_weekdays (draft : Draft) :
    Reports (draft.weekdays.mapM WeekdayEntry.check)
      (Field.weekday.complaints (draft.numbers .weekday)) := by
  have hsplit : Field.weekday.complaints (draft.numbers .weekday) =
      draft.weekdays.flatMap fun entry => Field.weekday.complaints entry.place?.toList := by
    rw [numbers, List.filterMap_eq_flatMap_toList, Field.complaints, List.filter_flatMap,
      List.map_flatMap]
    rfl
  rw [hsplit]
  exact Reports.mapM fun entry _ => entry.reports_check

theorem reports_build (draft : Draft) : Reports draft.build draft.complaints := by
  unfold build complaints
  simp only [Field.inOrder, List.flatMap_cons, List.flatMap_nil]
  split
  next hpos =>
    have hne : draft.interval ≠ some 0 := by
      intro hzero
      rw [hzero] at hpos
      exact absurd hpos (by decide)
    rw [if_neg hne, List.nil_append]
    refine draft.reports_limit.bind fun _ _ => ?_
    refine draft.reports_weekdays.bind fun _ _ => ?_
    refine (Field.reports_check .month _ _).bind fun _ _ => ?_
    refine (Field.reports_check .monthDay _ _).bind fun _ _ => ?_
    refine (Field.reports_check .yearDay _ _).bind fun _ _ => ?_
    refine (Field.reports_check .weekNumber _ _).bind fun _ _ => ?_
    refine (Field.reports_check .hour _ _).bind fun _ _ => ?_
    refine (Field.reports_check .minute _ _).bind fun _ _ => ?_
    refine (Field.reports_check .second _ _).bind fun _ _ => ?_
    refine (Field.reports_check .position _ _).bind fun _ _ => ?_
    exact Reports.ok _
  next hzero =>
    have hinterval : draft.interval = some 0 := by
      cases hn : draft.interval with
      | none =>
          rw [hn] at hzero
          exact absurd Nat.one_pos hzero
      | some n =>
          rw [hn] at hzero
          exact congrArg some (UInt32.toNat_inj.1 (Nat.eq_zero_of_not_pos hzero))
    intro e
    rw [hinterval]
    simp

theorem exists_build_iff {draft : Draft} :
    (∃ rule, draft.build = .ok rule) ↔ draft.Acceptable := by
  rw [draft.reports_build.exists_ok_iff, complaints_eq_nil_iff]

end Draft

end Recurrence
