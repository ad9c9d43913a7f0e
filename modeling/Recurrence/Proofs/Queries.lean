import Mathlib.Data.List.TakeWhile
import Mathlib.Order.Bounds.Basic
import Recurrence.Occurrences.Query
import Recurrence.Proofs.Sequence

/-!
# Queries answer about the whole sequence

A query runs a fresh cursor and stops as soon as it may. What it finds on the way
is first said of any cursor, in terms of what the cursor has yet to hand out:
`find` stops at the first date-time that passes, `foldWhile` and `takeWhile` before
the first that does not. None of that needs the occurrences to ascend.

Their order comes in at one place only. A test that nothing fails after something
has passed it, or passes after something has failed it, splits an ascending list in
two, and there stopping early is the same as looking at everything
(`dropWhile_eq_filter`, `takeWhile_eq_filter`).
-/

namespace Recurrence

/-! ## Tests that split a list in two -/

section Split

variable {α : Type} {test : α → Bool} {values : List α}

theorem dropWhile_eq_filter
    (h : values.Pairwise fun a b => test a = true → test b = true) :
    values.dropWhile (fun a => !test a) = values.filter test := by
  induction values with
  | nil => rfl
  | cons a values ih =>
      obtain ⟨hall, hrest⟩ := List.pairwise_cons.1 h
      cases htest : test a with
      | true =>
          rw [List.dropWhile_cons_of_neg (by simp [htest]), List.filter_cons_of_pos htest,
            List.filter_eq_self.2 fun b hb => hall b hb htest]
      | false =>
          rw [List.dropWhile_cons_of_pos (by simp [htest]),
            List.filter_cons_of_neg (by simp [htest]), ih hrest]

theorem takeWhile_eq_filter
    (h : values.Pairwise fun a b => test b = true → test a = true) :
    values.takeWhile test = values.filter test := by
  induction values with
  | nil => rfl
  | cons a values ih =>
      obtain ⟨hall, hrest⟩ := List.pairwise_cons.1 h
      cases htest : test a with
      | true =>
          rw [List.takeWhile_cons_of_pos htest, List.filter_cons_of_pos htest, ih hrest]
      | false =>
          have hnone : values.filter test = [] := by
            rw [List.filter_eq_nil_iff]
            intro b hb hpass
            rw [hall b hb hpass] at htest
            cases htest
          rw [List.takeWhile_cons_of_neg (by simp [htest]),
            List.filter_cons_of_neg (by simp [htest]), hnone]

theorem foldl_some (values : List α) (start : Option α) :
    values.foldl (fun _ a => some a) start = values.getLast?.or start := by
  induction values generalizing start with
  | nil => rfl
  | cons a values ih =>
      rw [List.foldl_cons, ih, List.getLast?_cons]
      cases values.getLast? <;> rfl

end Split

/-! ## Running a cursor as far as a test says -/

namespace Cursor

variable {cursor : Cursor}

theorem remainder_exhausted (cursor : Cursor) :
    { cursor with place := .exhausted }.remainder = [] :=
  Rule.cut_nil

theorem exists_find (h : cursor.Ready) (test : DateTime → Bool) :
    ∃ later, cursor.find test = .ok (cursor.remainder.find? test, later) ∧ later.Ready ∧
      later.remainder = (cursor.remainder.dropWhile fun t => !test t).tail := by
  fun_induction find test cursor with
  | case1 cursor fault hnext => exact absurd hnext (next_ne_error h fault)
  | case2 cursor later hnext =>
      obtain ⟨hnil, rfl⟩ := remainder_of_next_none h hnext
      rw [hnil]
      exact ⟨_, rfl, ⟨h.rule, trivial⟩, remainder_exhausted cursor⟩
  | case3 cursor t later hnext htest =>
      obtain ⟨hlater, hcons⟩ := remainder_of_next_some h hnext
      rw [hcons, List.find?_cons_of_pos htest, List.dropWhile_cons_of_neg (by simp [htest])]
      exact ⟨later, rfl, hlater, rfl⟩
  | case4 cursor t later hnext htest ih =>
      obtain ⟨hlater, hcons⟩ := remainder_of_next_some h hnext
      rw [hcons, List.find?_cons_of_neg htest, List.dropWhile_cons_of_pos (by simp [htest])]
      exact ih hlater

theorem exists_foldWhile {β : Type} (h : cursor.Ready) (test : DateTime → Bool)
    (combine : β → DateTime → β) (value : β) :
    ∃ later, cursor.foldWhile test combine value =
      .ok ((cursor.remainder.takeWhile test).foldl combine value, later) := by
  fun_induction foldWhile test combine value cursor with
  | case1 value cursor fault hnext => exact absurd hnext (next_ne_error h fault)
  | case2 value cursor later hnext =>
      rw [(remainder_of_next_none h hnext).1]
      exact ⟨later, rfl⟩
  | case3 value cursor t later hnext htest ih =>
      obtain ⟨hlater, hcons⟩ := remainder_of_next_some h hnext
      rw [hcons, List.takeWhile_cons_of_pos htest, List.foldl_cons]
      exact ih hlater
  | case4 value cursor t later hnext htest =>
      rw [(remainder_of_next_some h hnext).2, List.takeWhile_cons_of_neg htest]
      exact ⟨later, rfl⟩

theorem takeWhile_eq (h : cursor.Ready) (test : DateTime → Bool) (n : Nat) :
    cursor.takeWhile test n = .ok ((cursor.remainder.takeWhile test).take n) := by
  induction n generalizing cursor with
  | zero => rw [takeWhile, List.take_zero]
  | succ n ih =>
      rw [takeWhile]
      rcases next_cases h with ⟨hnil, hnext⟩ | ⟨t, later, hnext, hlater, hcons⟩
      · rw [hnext, hnil, ok_bind]
        rfl
      · rw [hnext, hcons, ok_bind]
        simp only
        split
        next htest =>
          rw [List.takeWhile_cons_of_pos htest, List.take_succ_cons, ih hlater, ok_bind]
          rfl
        next htest =>
          rw [List.takeWhile_cons_of_neg htest, List.take_nil]
          rfl

end Cursor

/-! ## Answers -/

/-- An answer is the earliest of the date-times with a property, or none where none has it. -/
def Earliest (p : DateTime → Prop) (all : List DateTime) : Option DateTime → Prop
  | some t => IsLeast {u | u ∈ all ∧ p u} t
  | none => ∀ t ∈ all, ¬ p t

/-- An answer is the latest of the date-times with a property, or none where none has it. -/
def Latest (p : DateTime → Prop) (all : List DateTime) : Option DateTime → Prop
  | some t => IsGreatest {u | u ∈ all ∧ p u} t
  | none => ∀ t ∈ all, ¬ p t

section Answers

variable {all : List DateTime} {test : DateTime → Bool} {p : DateTime → Prop}

theorem earliest_find? (h : all.Pairwise (· < ·)) (hp : ∀ t, test t = true ↔ p t) :
    Earliest p all (all.find? test) := by
  cases hfound : all.find? test with
  | none =>
      intro t ht hpt
      exact List.find?_eq_none.1 hfound t ht ((hp t).2 hpt)
  | some t =>
      obtain ⟨hpass, before, behind, rfl, hfail⟩ := List.find?_eq_some_iff_append.1 hfound
      refine ⟨⟨by simp, (hp t).1 hpass⟩, ?_⟩
      rintro u ⟨hu, hpu⟩
      rcases List.mem_append.1 hu with hu | hu
      · have hneg := hfail u hu
        rw [(hp u).2 hpu] at hneg
        cases hneg
      · rcases List.mem_cons.1 hu with rfl | hu
        · exact le_refl u
        · exact le_of_lt (List.rel_of_pairwise_cons (List.pairwise_append.1 h).2.1 hu)

theorem latest_getLast? (h : all.Pairwise (· < ·)) (hp : ∀ t, test t = true ↔ p t) :
    Latest p all (all.filter test).getLast? := by
  cases hfound : (all.filter test).getLast? with
  | none =>
      rw [List.getLast?_eq_none_iff, List.filter_eq_nil_iff] at hfound
      intro t ht hpt
      exact hfound t ht ((hp t).2 hpt)
  | some t =>
      obtain ⟨before, hsplit⟩ := List.getLast?_eq_some_iff.1 hfound
      have hmem : ∀ u, u ∈ all ∧ p u ↔ u ∈ before ++ [t] := by
        intro u
        rw [← hsplit, List.mem_filter, hp]
      refine ⟨(hmem t).2 (by simp), ?_⟩
      intro u hu
      have hascending := h.filter test
      rw [hsplit] at hascending
      rcases List.mem_append.1 ((hmem u).1 hu) with hu | hu
      · exact le_of_lt ((List.pairwise_append.1 hascending).2.2 u hu t (by simp))
      · rw [List.mem_singleton.1 hu]

end Answers

namespace Rule

variable {rule : Rule}

theorem isFrom_of_lt {lower : Option DateTime} {t u : DateTime} (h : t < u)
    (ht : isFrom lower t = true) : isFrom lower u = true := by
  cases lower with
  | none => rfl
  | some lower => exact decide_eq_true (le_trans (of_decide_eq_true ht) h.le)

theorem isUpTo_of_lt {upper : Option DateTime} {t u : DateTime} (h : t < u)
    (hu : isUpTo upper u = true) : isUpTo upper t = true := by
  cases upper with
  | none => rfl
  | some upper => exact decide_eq_true (le_trans h.le (of_decide_eq_true hu))

theorem window_eq (hrule : rule.Valid) (lower upper : Option DateTime) (n : Nat) :
    rule.window lower upper n =
      .ok ((rule.occurrences.filter fun t => isUpTo upper t && isFrom lower t).take n) := by
  cases n with
  | zero => rw [window, List.take_zero]
  | succ n =>
      have hascending := (pairwise_occurrences hrule).filter (isFrom lower)
      have hdrop : rule.occurrences.dropWhile (fun t => !isFrom lower t) =
          rule.occurrences.filter (isFrom lower) :=
        dropWhile_eq_filter ((pairwise_occurrences hrule).imp isFrom_of_lt)
      obtain ⟨later, hfind, hlater, hrest⟩ :=
        Cursor.exists_find (ready_cursor hrule) (isFrom lower)
      rw [List.find?_eq_head?_dropWhile_not] at hfind
      change rule.cursor.find _ = .ok ((rule.occurrences.dropWhile _).head?, later) at hfind
      change later.remainder = (rule.occurrences.dropWhile _).tail at hrest
      rw [window, hfind, ok_bind, ← List.filter_filter,
        ← takeWhile_eq_filter (hascending.imp isUpTo_of_lt), hdrop]
      rw [hdrop] at hrest
      cases hfrom : rule.occurrences.filter (isFrom lower) with
      | nil => rfl
      | cons t rest =>
          rw [hfrom, List.tail_cons] at hrest
          simp only [List.head?_cons]
          split
          next hup =>
            rw [Cursor.takeWhile_eq hlater, hrest, ok_bind, List.takeWhile_cons_of_pos hup,
              List.take_succ_cons]
            rfl
          next hpast =>
            rw [List.takeWhile_cons_of_neg hpast, List.take_nil]
            rfl

theorem between_eq (hrule : rule.Valid) (start finish : DateTime) (n : Nat) :
    rule.between start finish n =
      .ok ((rule.occurrences.filter fun t => start ≤ t ∧ t ≤ finish).take n) := by
  rw [between]
  split
  next =>
    rw [window_eq hrule]
    simp only [isFrom, isUpTo, Bool.decide_and, Bool.and_comm]
  next hinverted =>
    have hempty : rule.occurrences.filter (fun t => start ≤ t ∧ t ≤ finish) = [] := by
      rw [List.filter_eq_nil_iff]
      intro t _ hwithin
      rw [decide_eq_true_eq] at hwithin
      exact hinverted (le_trans hwithin.1 hwithin.2)
    rw [hempty, List.take_nil]

theorem exists_after (hrule : rule.Valid) (t : DateTime) (inclusive : Bool) :
    ∃ found, rule.after t inclusive = .ok found ∧
      Earliest (fun u => if inclusive then t ≤ u else t < u) rule.occurrences found := by
  let test : DateTime → Bool := fun u => if inclusive then t ≤ u else t < u
  have htest : ∀ u, test u = true ↔ if inclusive then t ≤ u else t < u := by
    intro u
    cases inclusive <;> exact decide_eq_true_iff
  obtain ⟨later, hfind, -, -⟩ := Cursor.exists_find (ready_cursor hrule) test
  refine ⟨rule.occurrences.find? test, ?_, earliest_find? (pairwise_occurrences hrule) htest⟩
  rw [after, hfind, ok_bind]
  rfl

theorem exists_before (hrule : rule.Valid) (t : DateTime) (inclusive : Bool) :
    ∃ found, rule.before t inclusive = .ok found ∧
      Latest (fun u => if inclusive then u ≤ t else u < t) rule.occurrences found := by
  let test : DateTime → Bool := fun u => if inclusive then decide (u ≤ t) else u < t
  have htest : ∀ u, test u = true ↔ if inclusive then u ≤ t else u < t := by
    intro u
    cases inclusive <;> exact decide_eq_true_iff
  have hearlier : ∀ {u v : DateTime}, u < v → test v = true → test u = true := by
    intro u v hlt hv
    rw [htest] at hv ⊢
    cases inclusive with
    | true => exact le_trans hlt.le hv
    | false => exact lt_trans hlt hv
  have hascending := pairwise_occurrences hrule
  obtain ⟨later, hfold⟩ := Cursor.exists_foldWhile (ready_cursor hrule) test
    (fun _ u => some u) none
  change rule.cursor.foldWhile _ _ _ =
    .ok ((rule.occurrences.takeWhile test).foldl _ none, later) at hfold
  rw [foldl_some, takeWhile_eq_filter (hascending.imp hearlier), Option.or_none] at hfold
  refine ⟨(rule.occurrences.filter test).getLast?, ?_, latest_getLast? hascending htest⟩
  rw [before, hfold, ok_bind]
  rfl

theorem contains_eq (hrule : rule.Valid) (t : DateTime) :
    rule.contains t = .ok (decide (t ∈ rule.occurrences)) := by
  obtain ⟨found, hafter, hearliest⟩ := exists_after hrule t true
  rw [contains, hafter, ok_bind]
  refine congrArg Except.ok (Bool.eq_iff_iff.2 ?_)
  rw [beq_iff_eq, decide_eq_true_eq]
  cases found with
  | none =>
      refine iff_of_false (fun h => nomatch h) fun hmem => ?_
      exact hearliest t hmem (le_refl t)
  | some u =>
      obtain ⟨⟨hmem, hle⟩, hleast⟩ := hearliest
      constructor
      · intro heq
        rwa [Option.some_inj.1 heq] at hmem
      · intro ht
        exact congrArg some (le_antisymm (hleast ⟨ht, le_refl t⟩) hle)

/-- Every query answers about the occurrences as a whole. A window has those that lie in it; the
first after a date-time and the last before it are the earliest and the latest there are; and to
be contained is to be one of them. -/
theorem queries_answer {draft : Draft} (hbuild : draft.build = .ok rule) :
    ∃ all, rule.cursor.toList = .ok all ∧
      (∀ start finish n, rule.between start finish n =
        .ok ((all.filter fun t => start ≤ t ∧ t ≤ finish).take n)) ∧
      (∀ t inclusive, ∃ found, rule.after t inclusive = .ok found ∧
        Earliest (fun u => if inclusive then t ≤ u else t < u) all found) ∧
      (∀ t inclusive, ∃ found, rule.before t inclusive = .ok found ∧
        Latest (fun u => if inclusive then u ≤ t else u < t) all found) ∧
      ∀ t, rule.contains t = .ok (decide (t ∈ all)) := by
  have hrule := valid_of_build hbuild
  exact ⟨rule.occurrences, toList_cursor hrule, between_eq hrule, exists_after hrule,
    exists_before hrule, contains_eq hrule⟩

theorem queries_answer_thanksgiving :
    thanksgiving.draft.build = .ok thanksgiving ∧
      ∃ all, thanksgiving.cursor.toList = .ok all ∧
        (∀ start finish n, thanksgiving.between start finish n =
          .ok ((all.filter fun t => start ≤ t ∧ t ≤ finish).take n)) ∧
        (∀ t inclusive, ∃ found, thanksgiving.after t inclusive = .ok found ∧
          Earliest (fun u => if inclusive then t ≤ u else t < u) all found) ∧
        (∀ t inclusive, ∃ found, thanksgiving.before t inclusive = .ok found ∧
          Latest (fun u => if inclusive then u ≤ t else u < t) all found) ∧
        ∀ t, thanksgiving.contains t = .ok (decide (t ∈ all)) :=
  ⟨build_thanksgiving, queries_answer build_thanksgiving⟩

end Rule

end Recurrence
