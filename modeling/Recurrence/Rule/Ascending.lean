/-!
# Ascending lists

The lists of a built rule are sets: sorted, and without repetitions. They are sorted
by an integer key, which is the value itself for numbers and the place of the entry
for weekdays. `mem_ascending` says that sorting keeps the members when the key tells
them apart, and `pairwise_ascending` that the keys of the result ascend strictly.

A list in this order is searched by halving it. `holds_iff` says that the search finds
what is there, and it is for this alone that the order must be known.
-/

namespace Recurrence

/-- Puts a value in its place in an ascending list, unless its place is taken. -/
def insertAscending (key : α → Int) (value : α) : List α → List α
  | [] => [value]
  | head :: tail =>
      if key value < key head then value :: head :: tail
      else if key value = key head then head :: tail
      else head :: insertAscending key value tail

/-- The values of a list in ascending order of their keys, each once. -/
def ascending (key : α → Int) (values : List α) : List α :=
  values.foldr (insertAscending key) []

/-- Whether a number is the key of a value in an ascending list: one half is left out at a time. -/
def holds (key : α → Int) (values : List α) (number : Int) : Bool :=
  match _h : values.drop (values.length / 2) with
  | [] => false
  | middle :: above =>
      if key middle = number then true
      else if key middle < number then holds key above number
      else holds key (values.take (values.length / 2)) number
termination_by values.length
decreasing_by
  all_goals
    have hlength := congrArg List.length _h
    simp only [List.length_drop, List.length_cons] at hlength
  · omega
  · rw [List.length_take]
    omega

variable {key : α → Int}

theorem mem_insertAscending (hkey : ∀ a b, key a = key b → a = b) {value a : α}
    {values : List α} : a ∈ insertAscending key value values ↔ a = value ∨ a ∈ values := by
  induction values with
  | nil => simp [insertAscending]
  | cons head tail ih =>
      unfold insertAscending
      split
      · simp
      · split
        next heq =>
          rw [hkey _ _ heq]
          simp
        next => simp [ih, or_left_comm]

theorem mem_ascending (hkey : ∀ a b, key a = key b → a = b) {a : α} {values : List α} :
    a ∈ ascending key values ↔ a ∈ values := by
  induction values with
  | nil => simp [ascending]
  | cons head tail ih =>
      show a ∈ insertAscending key head (ascending key tail) ↔ _
      rw [mem_insertAscending hkey, ih, List.mem_cons]

theorem lt_of_mem_insertAscending {value : α} {values : List α} {bound : Int}
    (hvalue : bound < key value) (hvalues : ∀ a ∈ values, bound < key a) :
    ∀ a ∈ insertAscending key value values, bound < key a := by
  induction values with
  | nil => simpa [insertAscending] using hvalue
  | cons head tail ih =>
      unfold insertAscending
      have hhead := hvalues head List.mem_cons_self
      have htail : ∀ a ∈ tail, bound < key a := fun a ha =>
        hvalues a (List.mem_cons_of_mem _ ha)
      split
      · simpa using ⟨hvalue, hhead, htail⟩
      · split
        · exact hvalues
        · simpa using ⟨hhead, ih htail⟩

theorem pairwise_insertAscending {value : α} {values : List α}
    (h : values.Pairwise fun a b => key a < key b) :
    (insertAscending key value values).Pairwise fun a b => key a < key b := by
  induction values with
  | nil => simp [insertAscending]
  | cons head tail ih =>
      have ⟨hhead, htail⟩ := List.pairwise_cons.1 h
      unfold insertAscending
      split
      next hlt =>
        refine List.pairwise_cons.2 ⟨?_, h⟩
        intro a ha
        rcases List.mem_cons.1 ha with rfl | ha
        · exact hlt
        · exact Int.lt_trans hlt (hhead a ha)
      next hge =>
        split
        · exact h
        next hne =>
          exact List.pairwise_cons.2
            ⟨lt_of_mem_insertAscending (by omega) hhead, ih htail⟩

theorem pairwise_ascending (values : List α) :
    (ascending key values).Pairwise fun a b => key a < key b := by
  induction values with
  | nil => exact List.Pairwise.nil
  | cons head tail ih => exact pairwise_insertAscending ih

theorem exists_mem_halves {values above : List α} {middle : α} {half : Nat}
    (h : values.drop half = middle :: above) {p : α → Prop} :
    (∃ a ∈ values, p a) ↔ (∃ a ∈ values.take half, p a) ∨ p middle ∨ ∃ a ∈ above, p a := by
  have hvalues := List.take_append_drop half values
  rw [h] at hvalues
  conv => lhs; rw [← hvalues]
  simp only [List.mem_append, List.mem_cons, or_and_right, exists_or, exists_eq_left]

theorem holds_iff {values : List α} (h : values.Pairwise fun a b => key a < key b)
    {number : Int} : holds key values number = true ↔ ∃ a ∈ values, key a = number := by
  fun_induction holds key values number with
  | case1 values hnone =>
      have hlength := List.drop_eq_nil_iff.1 hnone
      have hempty : values = [] := List.length_eq_zero_iff.1 (by omega)
      simp [hempty]
  | case2 values middle above hsplit heq =>
      exact iff_of_true rfl ((exists_mem_halves hsplit).2 (Or.inr (Or.inl heq)))
  | case3 values middle above hsplit hne hlt ih =>
      rw [← List.take_append_drop (values.length / 2) values, hsplit] at h
      obtain ⟨-, hupper, hacross⟩ := List.pairwise_append.1 h
      have hbelow : ¬ ∃ a ∈ values.take (values.length / 2), key a = number := by
        rintro ⟨a, ha, heq⟩
        have := hacross a ha middle List.mem_cons_self
        omega
      rw [ih (List.pairwise_cons.1 hupper).2, exists_mem_halves hsplit, or_iff_right hbelow,
        or_iff_right hne]
  | case4 values middle above hsplit hne hge ih =>
      rw [← List.take_append_drop (values.length / 2) values, hsplit] at h
      obtain ⟨hlower, hupper, -⟩ := List.pairwise_append.1 h
      have habove : ¬ ∃ a ∈ above, key a = number := by
        rintro ⟨a, ha, heq⟩
        have := (List.pairwise_cons.1 hupper).1 a ha
        omega
      rw [ih hlower, exists_mem_halves hsplit, or_iff_left (not_or.2 ⟨hne, habove⟩)]

end Recurrence
