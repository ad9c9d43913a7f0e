import Mathlib.Data.List.Sort
import Recurrence.Expansion

/-!
# Answers that may be refused

Building a rule and expanding a period both run a sequence of checks, any of
which may end it. The lemmas here turn "the sequence ends well" into what each
of its steps must have done, and back, so that no later proof opens a `do`.

A test that may fault is read through `Decides`: it answers, and its answer says
whether a proposition holds. `keepWhere_decides` and `anyM_decides` lift that
reading through the two ways in which the expansion runs its tests.
-/

namespace Recurrence

section Sequence

variable {ε α β : Type}

theorem bind_eq_ok_iff {x : Except ε α} {f : α → Except ε β} {b : β} :
    x >>= f = .ok b ↔ ∃ a, x = .ok a ∧ f a = .ok b := by
  cases x with
  | error e =>
      constructor
      · intro h
        cases h
      · rintro ⟨a, h, -⟩
        cases h
  | ok a =>
      constructor
      · intro h
        exact ⟨a, rfl, h⟩
      · rintro ⟨a', h, hf⟩
        cases h
        exact hf

@[simp] theorem ok_bind (a : α) (f : α → Except ε β) : (Except.ok a >>= f) = f a :=
  rfl

theorem mapM_eq_ok_iff {f : α → Except ε β} {values : List α} {results : List β} :
    values.mapM f = .ok results ↔ List.Forall₂ (fun a b => f a = .ok b) values results := by
  induction values generalizing results with
  | nil =>
      rw [List.mapM_nil, List.forall₂_nil_left_iff]
      constructor
      · intro h
        cases h
        rfl
      · rintro rfl
        rfl
  | cons a values ih =>
      rw [List.mapM_cons, bind_eq_ok_iff, List.forall₂_cons_left_iff]
      constructor
      · rintro ⟨b, hb, h⟩
        obtain ⟨rest, hrest, h⟩ := bind_eq_ok_iff.1 h
        cases h
        exact ⟨b, rest, hb, ih.1 hrest, rfl⟩
      · rintro ⟨b, rest, hb, hrest, rfl⟩
        exact ⟨b, hb, bind_eq_ok_iff.2 ⟨rest, ih.2 hrest, rfl⟩⟩

theorem mem_iff_of_mapM {f : α → Except ε β} {values : List α} {results : List β} {b : β}
    (h : values.mapM f = .ok results) : b ∈ results ↔ ∃ a ∈ values, f a = .ok b := by
  have hrel := mapM_eq_ok_iff.1 h
  clear h
  induction hrel with
  | nil => simp
  | cons hfirst _ ih => simp [hfirst, ih, @eq_comm β b]

theorem mapM_eq_ok_map {f : α → Except ε β} {g : α → β} {values : List α}
    (h : ∀ a ∈ values, f a = .ok (g a)) : values.mapM f = .ok (values.map g) := by
  rw [mapM_eq_ok_iff, List.forall₂_map_right_iff, List.forall₂_same]
  exact h

end Sequence

/-- A test that is never refused keeps what a filter keeps. -/
theorem keepWhere_eq_filter {ε α : Type} {test : α → Except ε Bool} {p : α → Bool}
    {values : List α} (h : ∀ a ∈ values, test a = .ok (p a)) :
    keepWhere test values = .ok (values.filter p) := by
  induction values with
  | nil => rfl
  | cons a values ih =>
      rw [keepWhere, h a List.mem_cons_self, ok_bind,
        ih fun b hb => h b (List.mem_cons_of_mem a hb), ok_bind, List.filter_cons]
      rfl

/-- A test that answers, and whose answer says whether a proposition holds. -/
def Decides (test : Except Fault Bool) (p : Prop) : Prop :=
  ∃ answer, test = .ok answer ∧ (answer = true ↔ p)

namespace Decides

variable {test : Except Fault Bool} {p q : Prop}

theorem of_iff (h : Decides test p) (hpq : p ↔ q) : Decides test q := by
  obtain ⟨answer, htest, hanswer⟩ := h
  exact ⟨answer, htest, hanswer.trans hpq⟩

theorem of_bool {answer : Bool} (h : answer = true ↔ p) : Decides (.ok answer) p :=
  ⟨answer, rfl, h⟩

/-- A test that is passed where a list is empty decides a condition on a list that is not. -/
theorem unless_isEmpty {α : Type} {values : List α} (h : Decides test p) :
    Decides (if values.isEmpty then .ok true else test) (values ≠ [] → p) := by
  cases values with
  | nil => exact of_bool (iff_of_true rfl fun h => absurd rfl h)
  | cons a values => exact h.of_iff ⟨fun hp _ => hp, fun hp => hp (List.cons_ne_nil a values)⟩

end Decides

variable {α : Type}

/-- What is kept by a test that decides a property is what has the property, in the old order. -/
theorem keepWhere_decides {test : α → Except Fault Bool} {p : α → Prop} (values : List α)
    (h : ∀ a ∈ values, Decides (test a) (p a)) :
    ∃ kept, keepWhere test values = .ok kept ∧ kept.Sublist values ∧
      ∀ a, a ∈ kept ↔ a ∈ values ∧ p a := by
  induction values with
  | nil => exact ⟨[], rfl, List.Sublist.refl _, by simp⟩
  | cons a values ih =>
      obtain ⟨kept, hkept, hsub, hmem⟩ := ih fun b hb => h b (List.mem_cons_of_mem a hb)
      obtain ⟨answer, htest, hanswer⟩ := h a List.mem_cons_self
      rw [keepWhere, htest, ok_bind, hkept, ok_bind]
      cases answer with
      | true =>
          refine ⟨a :: kept, rfl, hsub.cons_cons a, fun b => ?_⟩
          have ha : p a := hanswer.1 rfl
          rw [List.mem_cons, List.mem_cons, hmem]
          constructor
          · rintro (rfl | ⟨hb, hp⟩)
            · exact ⟨Or.inl rfl, ha⟩
            · exact ⟨Or.inr hb, hp⟩
          · rintro ⟨rfl | hb, hp⟩
            · exact Or.inl rfl
            · exact Or.inr ⟨hb, hp⟩
      | false =>
          refine ⟨kept, rfl, hsub.cons a, fun b => ?_⟩
          have ha : ¬ p a := fun hp => Bool.noConfusion (hanswer.2 hp)
          rw [hmem, List.mem_cons]
          constructor
          · rintro ⟨hb, hp⟩
            exact ⟨Or.inr hb, hp⟩
          · rintro ⟨rfl | hb, hp⟩
            · exact absurd hp ha
            · exact ⟨hb, hp⟩

theorem anyM_decides {test : α → Except Fault Bool} {p : α → Prop} {values : List α}
    (h : ∀ a ∈ values, Decides (test a) (p a)) :
    Decides (values.anyM test) (∃ a ∈ values, p a) := by
  induction values with
  | nil => exact Decides.of_bool (by simp)
  | cons a values ih =>
      obtain ⟨answer, htest, hanswer⟩ := h a List.mem_cons_self
      have hrest := ih fun b hb => h b (List.mem_cons_of_mem a hb)
      rw [List.anyM_cons, htest, ok_bind]
      cases answer with
      | true =>
          exact ⟨true, rfl, iff_of_true rfl ⟨a, List.mem_cons_self, hanswer.1 rfl⟩⟩
      | false =>
          have ha : ¬ p a := fun hp => Bool.noConfusion (hanswer.2 hp)
          refine hrest.of_iff ?_
          constructor
          · rintro ⟨b, hb, hp⟩
            exact ⟨b, List.mem_cons_of_mem a hb, hp⟩
          · rintro ⟨b, hb, hp⟩
            rcases List.mem_cons.1 hb with rfl | hb
            · exact absurd hp ha
            · exact ⟨b, hb, hp⟩

end Recurrence
