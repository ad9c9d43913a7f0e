import Recurrence.Proofs.Period

/-!
# Steps from one period to another

Steps add up: to go `a` units and then `b` is to go `a + b`, and where the first
leg leaves the calendar so does the whole (`advance_add`). That is what lets a walk
of any interval be read without the periods in between.

`unitsTo` counts the units from a period to a later moment by the calendar alone,
without a step. `exists_advance_unitsTo` says that so many steps lead to a period
that holds the moment, and `contains_advance_iff` that no other number of steps
does. Only the first of the two needs a case for each kind of period; the second
follows because a step never comes back into the period that it leaves.
-/

namespace Recurrence

namespace Date

theorem addDays?_add (date : Date) {a b : Int} (ha : 0 ≤ a) (hb : 0 ≤ b) :
    date.addDays? (a + b) = (date.addDays? a).bind (·.addDays? b) := by
  have hfirst := date.first_le
  simp only [addDays?, ofNumber?]
  by_cases hleg : date.number + a ≤ 3652424
  · rw [dif_pos (show -3652059 ≤ date.number + a ∧ date.number + a ≤ 3652424 from
      ⟨by omega, hleg⟩), Option.bind_some, Int.add_assoc]
  · rw [dif_neg (by omega), dif_neg (by omega), Option.bind_none]

end Date

namespace DateTime

theorem addSeconds?_eq_some {t later : DateTime} {seconds : Int}
    (hsecond : t.second + seconds = later.second) (hnano : t.nano = later.nano) :
    t.addSeconds? seconds = some later := by
  have hfirst := later.first_le
  have hend := later.lt_end
  rw [addSeconds?, dif_pos (by omega), Option.some_inj]
  exact ext_fields hsecond hnano

theorem addSeconds?_add (t : DateTime) {a b : Int} (ha : 0 ≤ a) (hb : 0 ≤ b) :
    t.addSeconds? (a + b) = (t.addSeconds? a).bind (·.addSeconds? b) := by
  have hfirst := t.first_le
  simp only [addSeconds?]
  by_cases hleg : t.second + a < (3652424 + 1) * 86400
  · rw [dif_pos (show -3652059 * 86400 ≤ t.second + a ∧ _ from ⟨by omega, hleg⟩),
      Option.bind_some]
    simp only [Int.add_assoc]
  · rw [dif_neg (by omega), dif_neg (by omega), Option.bind_none]

end DateTime

namespace Period

theorem monthIndex_div {year month : Int} (h : 1 ≤ month ∧ month ≤ 12) :
    monthIndex year month / 12 = year := by
  unfold monthIndex
  omega

theorem monthIndex_mod {year month : Int} (h : 1 ≤ month ∧ month ≤ 12) :
    monthIndex year month % 12 + 1 = month := by
  unfold monthIndex
  omega

/-! ## Steps

One lemma per kind of period says when so many steps lead from one to another. -/

section Kinds

variable {y m z n : Int} {first date : Date} {start later : DateTime} {steps : Nat}

theorem advance_year (hyear : Date.supportsYear z = true) (h : y + steps = z) :
    (year y).advance steps = some (year z) := by
  subst h
  exact if_pos hyear

theorem advance_month (hvalid : (month z n).Valid)
    (h : monthIndex y m + steps = monthIndex z n) :
    (month y m).advance steps = some (month z n) := by
  simp only [advance, h]
  rw [monthIndex_div hvalid.2, monthIndex_mod hvalid.2]
  exact if_pos hvalid.1

theorem advance_week (h : first.number + 7 * steps = date.number) :
    (week first).advance steps = some (week date) := by
  rw [advance, Date.addDays?, h, Date.ofNumber?_number, Option.map_some]

theorem advance_day (h : first.number + steps = date.number) :
    (day first).advance steps = some (day date) := by
  rw [advance, Date.addDays?, h, Date.ofNumber?_number, Option.map_some]

theorem advance_hour (h : start.second + 3600 * steps = later.second)
    (hnano : start.nano = later.nano) : (hour start).advance steps = some (hour later) := by
  rw [advance, DateTime.addSeconds?_eq_some h hnano, Option.map_some]

theorem advance_minute (h : start.second + 60 * steps = later.second)
    (hnano : start.nano = later.nano) : (minute start).advance steps = some (minute later) := by
  rw [advance, DateTime.addSeconds?_eq_some h hnano, Option.map_some]

theorem advance_second (h : start.second + steps = later.second)
    (hnano : start.nano = later.nano) : (second start).advance steps = some (second later) := by
  rw [advance, DateTime.addSeconds?_eq_some h hnano, Option.map_some]

end Kinds

theorem advance_zero {period : Period} (h : period.Valid) : period.advance 0 = some period := by
  cases period with
  | year y => exact advance_year h (Int.add_zero y)
  | month y m => exact advance_month h (Int.add_zero _)
  | week first => exact advance_week (Int.add_zero _)
  | day date => exact advance_day (Int.add_zero _)
  | hour start => exact advance_hour (Int.add_zero _) rfl
  | minute start => exact advance_minute (Int.add_zero _) rfl
  | second start => exact advance_second (Int.add_zero _) rfl

theorem advance_add {period : Period} (h : period.Valid) (a b : Nat) :
    period.advance (a + b) = (period.advance a).bind (·.advance b) := by
  cases period with
  | year y =>
      have hyear := Date.supportsYear_iff.1 h
      simp only [advance, Int.natCast_add, ← Int.add_assoc]
      by_cases hleg : Date.supportsYear (y + a) = true
      · rw [if_pos hleg, Option.bind_some]
      · have hwhole : ¬ Date.supportsYear (y + a + b) = true := by
          rw [Date.supportsYear_iff] at hleg ⊢
          omega
        rw [if_neg hleg, if_neg hwhole, Option.bind_none]
  | month y m =>
      have hyear := Date.supportsYear_iff.1 h.1
      have hmonth := h.2
      simp only [advance, Int.natCast_add, ← Int.add_assoc]
      by_cases hleg : Date.supportsYear ((monthIndex y m + a) / 12) = true
      · have hindex : monthIndex ((monthIndex y m + a) / 12) ((monthIndex y m + a) % 12 + 1) =
            monthIndex y m + a := by
          rw [monthIndex]
          omega
        rw [if_pos hleg, Option.bind_some]
        simp only [hindex]
      · have hwhole : ¬ Date.supportsYear ((monthIndex y m + a + b) / 12) = true := by
          rw [Date.supportsYear_iff] at hleg ⊢
          unfold monthIndex at *
          omega
        rw [if_neg hleg, if_neg hwhole, Option.bind_none]
  | week first =>
      simp only [advance, Int.natCast_add, Int.mul_add]
      rw [Date.addDays?_add first (by omega) (by omega), Option.map_bind, Option.bind_map]
      rfl
  | day date =>
      simp only [advance, Int.natCast_add]
      rw [Date.addDays?_add date (by omega) (by omega), Option.map_bind, Option.bind_map]
      rfl
  | hour start | minute start =>
      simp only [advance, Int.natCast_add, Int.mul_add]
      rw [DateTime.addSeconds?_add start (by omega) (by omega), Option.map_bind, Option.bind_map]
      rfl
  | second start =>
      simp only [advance, Int.natCast_add]
      rw [DateTime.addSeconds?_add start (by omega) (by omega), Option.map_bind, Option.bind_map]
      rfl

theorem opens_le_of_advance {period later : Period} {steps : Nat} (h : period.Aligned)
    (hadvance : period.advance steps = some later) : period.opens ≤ later.opens := by
  rcases Nat.eq_zero_or_pos steps with rfl | hpos
  · rw [advance_zero h.valid, Option.some_inj] at hadvance
    rw [hadvance]
  · have hcloses := closes_le_opens_of_advance h hpos hadvance
    have hopens := opens_lt_closes h.valid
    omega

theorem steps_eq_of_contains {period p q : Period} {a b : Nat} {t : DateTime}
    (h : period.Aligned) (hp : period.advance a = some p) (hq : period.advance b = some q)
    (hpt : p.Contains t) (hqt : q.Contains t) : a = b := by
  have hpaligned := aligned_of_advance h hp
  have hqaligned := aligned_of_advance h hq
  rw [contains_iff hpaligned] at hpt
  rw [contains_iff hqaligned] at hqt
  rcases Nat.lt_trichotomy a b with hlt | heq | hgt
  · obtain ⟨steps, rfl⟩ : ∃ steps, b = a + steps := ⟨b - a, by omega⟩
    rw [advance_add h.valid, hp, Option.bind_some] at hq
    have hcloses := closes_le_opens_of_advance hpaligned (by omega) hq
    omega
  · exact heq
  · obtain ⟨steps, rfl⟩ : ∃ steps, a = b + steps := ⟨a - b, by omega⟩
    rw [advance_add h.valid, hq, Option.bind_some] at hp
    have hcloses := closes_le_opens_of_advance hqaligned (by omega) hp
    omega

/-! ## Units to a moment -/

/-- Units from a period to the one of its kind that holds a later moment. -/
def unitsTo (period : Period) (t : DateTime) : Nat :=
  match period with
  | year y => (t.date.year - y).toNat
  | month y m => (monthIndex t.date.year t.date.month - monthIndex y m).toNat
  | week first => ((t.date.number - first.number) / 7).toNat
  | day date => (t.date.number - date.number).toNat
  | hour start => ((t.second - start.second) / 3600).toNat
  | minute start => ((t.second - start.second) / 60).toNat
  | second start => (t.second - start.second).toNat

theorem valid_month (date : Date) : (month date.year date.month).Valid := by
  have hfields := date.fields_valid
  exact ⟨date.supportsYear_year, hfields.1, hfields.2.1⟩

theorem daysAfter_bounds (later earlier : Weekday) :
    0 ≤ later.daysAfter earlier ∧ later.daysAfter earlier ≤ 6 := by
  unfold Weekday.daysAfter
  omega

/-- The week around a moment begins on the first day of the week, or with the calendar. -/
theorem exists_containing_weekly (t : DateTime) (weekStart : Weekday) :
    ∃ first, containing .weekly t weekStart = week first ∧
      first.number =
        Max.max (t.date.number - t.date.weekday.daysAfter weekStart) Date.min.number := by
  have hback := daysAfter_bounds t.date.weekday weekStart
  have hlast := t.date.le_last
  refine ⟨_, rfl, ?_⟩
  simp only [Date.addDays?, Date.ofNumber?, Date.min]
  split
  · rw [Option.getD_some]
    simp only
    omega
  · rw [Option.getD_none]
    simp only
    omega

/-- The period around a moment holds it, also where its week was cut off by the calendar. -/
theorem contains_containing (frequency : Frequency) (t : DateTime) (weekStart : Weekday) :
    (containing frequency t weekStart).Contains t := by
  have hfirst := t.date.first_le
  have hlast := t.date.le_last
  have hdate := t.number_date
  rw [contains_iff (aligned_containing frequency t weekStart)]
  cases frequency with
  | yearly =>
      have hlow := Gregorian.daysBeforeYear_le_yearOf t.date.number
      have hhigh := Gregorian.lt_daysBeforeYear_yearOf t.date.number
      simp only [containing, opens, closes, firstNumber, lastNumber, Date.year]
      omega
  | monthly =>
      have hvalid := valid_month t.date
      have hin := (number_mem_month_iff hvalid.1 hvalid.2).1 ⟨rfl, rfl⟩
      simp only [containing, opens, closes]
      omega
  | weekly =>
      have hback := daysAfter_bounds t.date.weekday weekStart
      obtain ⟨first, heq, hnumber⟩ := exists_containing_weekly t weekStart
      simp only [Date.min] at hnumber
      simp only [heq, opens, closes, firstNumber, lastNumber, Date.max]
      omega
  | daily =>
      simp only [containing, opens, closes, firstNumber, lastNumber]
      omega
  | hourly =>
      simp only [containing, opens, closes, DateTime.startOfHour]
      omega
  | minutely =>
      simp only [containing, opens, closes, DateTime.startOfMinute]
      omega
  | secondly =>
      simp only [containing, opens, closes, DateTime.wholeSecond]
      omega

theorem year_le_of_opens_le {y : Int} {t : DateTime} (h : (year y).opens ≤ t.second) :
    y ≤ t.date.year := by
  have hcontains := (contains_iff (aligned_containing .yearly t .monday)).1
    (contains_containing .yearly t .monday)
  by_contra hlt
  have hle := Gregorian.daysBeforeYear_le (show t.date.year + 1 ≤ y by omega)
  simp only [containing, opens, closes, firstNumber, lastNumber] at h hcontains
  omega

theorem monthIndex_le_of_opens_le {y m : Int} (hm : 1 ≤ m ∧ m ≤ 12) {t : DateTime}
    (h : (month y m).opens ≤ t.second) :
    monthIndex y m ≤ monthIndex t.date.year t.date.month := by
  have hvalid := valid_month t.date
  have hcontains := (contains_iff (aligned_containing .monthly t .monday)).1
    (contains_containing .monthly t .monday)
  by_contra hlt
  -- The month of the moment would end before the month in question begins.
  have hle := Gregorian.monthStart_le
    (show monthIndex t.date.year t.date.month + 1 ≤ monthIndex y m by omega)
  rw [Gregorian.monthStart_succ, Gregorian.monthStart_monthIndex hm,
    Gregorian.monthStart_monthIndex hvalid.2, monthIndex_div hvalid.2,
    monthIndex_mod hvalid.2] at hle
  simp only [containing, opens, closes, firstNumber, lastNumber] at h hcontains
  omega

theorem exists_advance_unitsTo {period : Period} (h : period.Aligned) {t : DateTime}
    (hopens : period.opens ≤ t.second) :
    ∃ later, period.advance (period.unitsTo t) = some later ∧ later.Contains t := by
  have hdate := t.number_date
  have hholds := fun frequency => contains_containing frequency t .monday
  cases period with
  | year y =>
      have hle := year_le_of_opens_le hopens
      refine ⟨_, advance_year t.date.supportsYear_year ?_, hholds .yearly⟩
      rw [unitsTo]
      omega
  | month y m =>
      have hle := monthIndex_le_of_opens_le h.2 hopens
      refine ⟨_, advance_month (valid_month t.date) ?_, hholds .monthly⟩
      rw [unitsTo]
      omega
  | week first =>
      -- The week may begin on any day, so it is counted from the one at hand.
      simp only [opens, firstNumber] at hopens
      obtain ⟨date, hnumber⟩ : ∃ date : Date,
          date.number = first.number + 7 * ((week first).unitsTo t : Int) := by
        have hfirst := first.first_le
        have hlast := t.date.le_last
        rw [unitsTo]
        exact ⟨⟨_, by omega, by omega⟩, rfl⟩
      refine ⟨_, advance_week hnumber.symm, ?_⟩
      have hlast := t.date.le_last
      rw [unitsTo] at hnumber
      rw [contains_iff (show (week date).Aligned from trivial)]
      simp only [opens, closes, firstNumber, lastNumber, Date.max]
      omega
  | day date =>
      simp only [opens, firstNumber] at hopens
      refine ⟨_, advance_day ?_, hholds .daily⟩
      rw [unitsTo]
      omega
  | hour start =>
      obtain ⟨hfull, hnano⟩ := h
      simp only [opens] at hopens
      refine ⟨_, advance_hour ?_ hnano, hholds .hourly⟩
      simp only [unitsTo, DateTime.startOfHour]
      omega
  | minute start =>
      obtain ⟨hfull, hnano⟩ := h
      simp only [opens] at hopens
      refine ⟨_, advance_minute ?_ hnano, hholds .minutely⟩
      simp only [unitsTo, DateTime.startOfMinute]
      omega
  | second start =>
      have hnano : start.nano = 0 := h
      simp only [opens] at hopens
      refine ⟨_, advance_second ?_ hnano, hholds .secondly⟩
      simp only [unitsTo, DateTime.wholeSecond]
      omega

theorem contains_advance_iff {period later : Period} {steps : Nat} {t : DateTime}
    (h : period.Aligned) (hadvance : period.advance steps = some later) :
    later.Contains t ↔ period.opens ≤ t.second ∧ period.unitsTo t = steps := by
  constructor
  · intro hcontains
    have hle := opens_le_of_advance h hadvance
    have hbounds := (contains_iff (aligned_of_advance h hadvance)).1 hcontains
    have hopens : period.opens ≤ t.second := by omega
    obtain ⟨holder, hholder, hholds⟩ := exists_advance_unitsTo h hopens
    exact ⟨hopens, steps_eq_of_contains h hholder hadvance hholds hcontains⟩
  · rintro ⟨hopens, rfl⟩
    obtain ⟨holder, hholder, hholds⟩ := exists_advance_unitsTo h hopens
    rw [hadvance, Option.some_inj] at hholder
    rw [hholder]
    exact hholds

theorem exists_advance_contains_iff {period : Period} {steps : Nat} {t : DateTime}
    (h : period.Aligned) :
    (∃ later, period.advance steps = some later ∧ later.Contains t) ↔
      period.opens ≤ t.second ∧ period.unitsTo t = steps := by
  constructor
  · rintro ⟨later, hadvance, hcontains⟩
    exact (contains_advance_iff h hadvance).1 hcontains
  · rintro ⟨hopens, rfl⟩
    exact exists_advance_unitsTo h hopens

/-- The frequency whose unit a period is. -/
def frequency : Period → Frequency
  | year _ => .yearly
  | month _ _ => .monthly
  | week _ => .weekly
  | day _ => .daily
  | hour _ => .hourly
  | minute _ => .minutely
  | second _ => .secondly

@[simp] theorem frequency_containing (frequency : Frequency) (t : DateTime)
    (weekStart : Weekday) : (containing frequency t weekStart).frequency = frequency := by
  cases frequency <;> rfl

theorem frequency_of_advance {period later : Period} {steps : Nat}
    (h : period.advance steps = some later) : later.frequency = period.frequency := by
  cases period with
  | year y | month y m =>
      simp only [advance] at h
      split at h
      · cases h
        rfl
      · cases h
  | week first | day first | hour first | minute first | second first =>
      obtain ⟨_, -, rfl⟩ := Option.map_eq_some_iff.1 h
      rfl

end Period

end Recurrence
