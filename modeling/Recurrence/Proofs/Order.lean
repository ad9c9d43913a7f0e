import Mathlib.Data.List.Sort
import Recurrence.Calendar.DateTime

/-!
# The order of dates and date-times

Both are ordered by numbers, dates by the number of the day and date-times by
the second and then the nanosecond, so both orders are linear and the library's
facts about linear orders and about ascending lists apply to them.

What the proofs about occurrences ask of the two orders together is that the
second one refines the first: a date-time on an earlier day is earlier, and of
two on one day the clock decides, hour before minute before second.
-/

namespace Recurrence

theorem Date.le_iff {a b : Date} : a ≤ b ↔ a.number ≤ b.number :=
  Iff.rfl

theorem Date.lt_iff {a b : Date} : a < b ↔ a.number < b.number :=
  Iff.rfl

instance : LinearOrder Date where
  le_refl a := Int.le_refl a.number
  le_trans _ _ _ hab hbc := Int.le_trans hab hbc
  lt_iff_le_not_ge a b := by
    rw [Date.lt_iff, Date.le_iff, Date.le_iff]
    omega
  le_antisymm _ _ hab hba := Date.ext_number (Int.le_antisymm hab hba)
  le_total a b := Int.le_total a.number b.number
  toDecidableLE a b := inferInstanceAs (Decidable (a.number ≤ b.number))
  toDecidableLT a b := inferInstanceAs (Decidable (a.number < b.number))

instance : LinearOrder DateTime where
  le_refl a := by
    rw [DateTime.le_iff]
    omega
  le_trans a b c hab hbc := by
    rw [DateTime.le_iff] at hab hbc ⊢
    omega
  lt_iff_le_not_ge a b := by
    rw [DateTime.lt_iff, DateTime.le_iff, DateTime.le_iff]
    omega
  le_antisymm a b hab hba := by
    rw [DateTime.le_iff] at hab hba
    exact DateTime.ext_fields (by omega) (by omega)
  le_total a b := by
    rw [DateTime.le_iff, DateTime.le_iff]
    omega
  toDecidableLE a b := inferInstanceAs (Decidable (¬ b < a))
  toDecidableLT a b :=
    inferInstanceAs (Decidable (a.second < b.second ∨ a.second = b.second ∧ a.nano < b.nano))

/-- An ascending list of whole numbers is no longer than the range of its members. -/
theorem length_le_of_pairwise_lt {values : List Int} {low high : Int}
    (h : values.Pairwise (· < ·)) (hrange : ∀ v ∈ values, low ≤ v ∧ v ≤ high) :
    values.length ≤ (high + 1 - low).toNat := by
  induction values generalizing low with
  | nil => exact Nat.zero_le _
  | cons first values ih =>
      obtain ⟨hlow, hhigh⟩ := hrange first List.mem_cons_self
      obtain ⟨hfirst, hrest⟩ := List.pairwise_cons.1 h
      have hlength := ih hrest fun v hv =>
        ⟨Int.add_one_le_of_lt (hfirst v hv), (hrange v (List.mem_cons_of_mem first hv)).2⟩
      rw [List.length_cons]
      omega

namespace DateTime

theorem number_date (t : DateTime) : t.date.number = t.second / 86400 :=
  rfl

theorem second_eq (t : DateTime) :
    t.second = t.date.number * 86400 + t.hour * 3600 + t.minute * 60 + t.secondOfMinute := by
  rw [number_date, hour, minute, secondOfMinute]
  omega

theorem clock_bounds (t : DateTime) :
    (0 ≤ t.hour ∧ t.hour ≤ 23) ∧ (0 ≤ t.minute ∧ t.minute ≤ 59) ∧
      0 ≤ t.secondOfMinute ∧ t.secondOfMinute ≤ 59 := by
  rw [hour, minute, secondOfMinute]
  omega

/-- A clock reading on a date is the date-time that has this date and this reading. -/
theorem ofClock?_eq_some_iff {date : Date} {hour minute second : Int} {nano : Nat}
    {t : DateTime} :
    ofClock? date hour minute second nano = some t ↔
      t.date = date ∧ t.hour = hour ∧ t.minute = minute ∧ t.secondOfMinute = second ∧
        t.nano = nano := by
  constructor
  · intro h
    unfold ofClock? at h
    split at h
    · cases h
      refine ⟨Date.ext_number ?_, ?_, ?_, ?_, rfl⟩ <;>
        simp only [DateTime.date, DateTime.hour, DateTime.minute, secondOfMinute] <;> omega
    · cases h
  · rintro ⟨rfl, rfl, rfl, rfl, rfl⟩
    exact ofClock?_fields t

theorem lt_of_date_lt {t u : DateTime} (h : t.date < u.date) : t < u := by
  rw [Date.lt_iff, number_date, number_date] at h
  rw [lt_iff]
  omega

theorem lt_of_hour_lt {t u : DateTime} (hdate : t.date = u.date) (h : t.hour < u.hour) :
    t < u := by
  have ht := t.clock_bounds
  have hu := u.clock_bounds
  rw [lt_iff, t.second_eq, u.second_eq, hdate]
  omega

theorem lt_of_minute_lt {t u : DateTime} (hdate : t.date = u.date) (hhour : t.hour = u.hour)
    (h : t.minute < u.minute) : t < u := by
  have ht := t.clock_bounds
  have hu := u.clock_bounds
  rw [lt_iff, t.second_eq, u.second_eq, hdate, hhour]
  omega

theorem lt_of_second_lt {t u : DateTime} (hdate : t.date = u.date) (hhour : t.hour = u.hour)
    (hminute : t.minute = u.minute) (h : t.secondOfMinute < u.secondOfMinute) : t < u := by
  rw [lt_iff, t.second_eq, u.second_eq, hdate, hhour, hminute]
  omega

end DateTime

end Recurrence
