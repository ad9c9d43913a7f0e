import Recurrence.Calendar.Checked
import Recurrence.Proofs.Order

/-!
# The calendar inside its bounds

The questions of `Recurrence.Calendar` check their arguments. Here they are
answered once for all arguments that pass: for a supported year, a month of it
and a range of dates that is not inverted no question faults, and each answer is
given in terms of the enumeration of days that it stands for.

Two answers carry the weight. An index resolves to the one place that it names,
counted from either end (`resolveIndex_eq_some_iff`). The jump by whole weeks in
`nthWeekday` finds what a scan of the range would find (`nthWeekday_eq`): the
matching days of a range, as numbers, are the progression by sevens from the
first match on (`map_number_weekdaysOf`), and the jump lands on its `n`-th term.
-/

namespace Recurrence

/-! ## Supported years -/

theorem Date.supportsYear_iff {year : Int} :
    Date.supportsYear year = true ↔ -9999 ≤ year ∧ year ≤ 9999 := by
  simp only [Date.supportsYear, Bool.and_eq_true, decide_eq_true_eq]
  rfl

namespace Gregorian

theorem supportsYear_yearOf {number : Int} (h : -3652059 ≤ number) (h' : number ≤ 3652424) :
    Date.supportsYear (yearOf number) = true := by
  have hle := daysBeforeYear_le_yearOf number
  have hlt := lt_daysBeforeYear_yearOf number
  rw [Date.supportsYear_iff]
  unfold daysBeforeYear at hle hlt
  omega

theorem monthLength_bounds (year month : Int) :
    28 ≤ monthLength year month ∧ monthLength year month ≤ 31 := by
  unfold monthLength
  split
  · split <;> omega
  · split <;> omega

theorem yearLength_bounds (year : Int) : 365 ≤ yearLength year ∧ yearLength year ≤ 366 := by
  unfold yearLength
  split <;> omega

theorem number_bounds {year index : Int} (hyear : Date.supportsYear year = true)
    (h : 0 ≤ index) (h' : index < yearLength year) :
    -3652059 ≤ daysBeforeYear year + index ∧ daysBeforeYear year + index ≤ 3652424 := by
  rw [Date.supportsYear_iff] at hyear
  have hsucc := daysBeforeYear_succ year
  unfold daysBeforeYear at hsucc ⊢
  omega

end Gregorian

namespace Date

theorem supportsYear_year (date : Date) : supportsYear date.year = true :=
  Gregorian.supportsYear_yearOf date.first_le date.le_last

/-- The fields of a day of a supported year name a date, the one with the number they give. -/
theorem exists_ofFields? {year month day : Int} (hyear : supportsYear year = true)
    (hmonth : 1 ≤ month ∧ month ≤ 12) (hday : 1 ≤ day ∧ day ≤ Gregorian.monthLength year month) :
    ∃ date, ofFields? year month day = some date ∧
      date.number = Gregorian.dayNumber year month day := by
  have hindex := Gregorian.daysBeforeMonth_bounds hmonth.1 hmonth.2 hday.1 hday.2
  have hnumber := Gregorian.number_bounds hyear hindex.1 hindex.2
  refine ⟨⟨Gregorian.dayNumber year month day, ?_, ?_⟩, ?_, rfl⟩
  · unfold Gregorian.dayNumber
    omega
  · unfold Gregorian.dayNumber
    omega
  · rw [ofFields?, if_pos ⟨hmonth.1, hmonth.2, hday.1, hday.2⟩, ofNumber?_eq_some_iff]

theorem number_eq (date : Date) :
    date.number = Gregorian.daysBeforeYear date.year + date.yearIndex := by
  unfold yearIndex
  omega

theorem offset_weekday (date : Date) : date.weekday.offset = (date.number + 5) % 7 :=
  Weekday.offset_ofOffset _

/-- Two dates fall on the same weekday when whole weeks lie between them. -/
theorem weekday_eq_weekday_iff {a b : Date} :
    a.weekday = b.weekday ↔ (a.number - b.number) % 7 = 0 := by
  have ha := a.offset_weekday
  have hb := b.offset_weekday
  constructor
  · intro h
    rw [h] at ha
    omega
  · intro h
    rw [← a.weekday.ofOffset_offset, ← b.weekday.ofOffset_offset, ha, hb]
    congr 1
    omega

theorem pairwise_upTo (first last : Date) : (first.upTo last).Pairwise (· < ·) := by
  unfold upTo
  rw [List.pairwise_filterMap]
  refine List.pairwise_lt_range.imp fun {j k} hjk a ha b hb => ?_
  have hanumber := ofNumber?_eq_some_iff.1 ha
  have hbnumber := ofNumber?_eq_some_iff.1 hb
  rw [lt_iff]
  omega

/-- Dates in order are the terms of a progression if their numbers are. -/
theorem map_number_eq_map_range {dates : List Date} {count : Nat} {f : Nat → Int}
    (hascending : dates.Pairwise (· < ·)) (hf : ∀ {j k}, j < k → f j < f k)
    (hmem : ∀ n, (∃ date ∈ dates, date.number = n) ↔ ∃ k < count, f k = n) :
    dates.map number = (List.range count).map f := by
  have hnumbers : (dates.map number).Pairwise (· < ·) := List.pairwise_map.2 hascending
  have hterms : ((List.range count).map f).Pairwise (· < ·) :=
    List.pairwise_map.2 (List.pairwise_lt_range.imp hf)
  refine hnumbers.eq_of_mem_iff hterms fun n => ?_
  simp only [List.mem_map, List.mem_range, hmem]

/-- Dates in order are numbered through if they are those with the numbers of a range. -/
theorem map_number_of_mem_iff {dates : List Date} {low high : Int}
    (hascending : dates.Pairwise (· < ·)) (hlow : -3652059 ≤ low) (hhigh : high ≤ 3652424)
    (hmem : ∀ date, date ∈ dates ↔ low ≤ date.number ∧ date.number ≤ high) :
    dates.map number = (List.range (high + 1 - low).toNat).map fun (k : Nat) => low + k := by
  refine map_number_eq_map_range hascending (fun hjk => by omega) fun n => ?_
  simp only [hmem]
  constructor
  · rintro ⟨date, hdate, rfl⟩
    exact ⟨(date.number - low).toNat, by omega, by omega⟩
  · rintro ⟨k, hk, rfl⟩
    exact ⟨⟨low + k, by omega, by omega⟩, by dsimp only; omega, rfl⟩

/-- The places of dates are those of their numbers. -/
theorem getElem?_of_map_number {dates : List Date} {count : Nat} {f : Nat → Int}
    (h : dates.map number = (List.range count).map f) {k : Nat} {date : Date} :
    dates[k]? = some date ↔ k < count ∧ date.number = f k := by
  have hnumbers := congrArg (fun numbers => numbers[k]?) h
  simp only [List.getElem?_map] at hnumbers
  constructor
  · intro hdate
    rw [hdate, Option.map_some] at hnumbers
    obtain ⟨j, hj, hnumber⟩ := Option.map_eq_some_iff.1 hnumbers.symm
    obtain ⟨hlt, rfl⟩ := List.getElem?_eq_some_iff.1 hj
    rw [List.getElem_range] at hnumber
    exact ⟨by simpa using hlt, hnumber.symm⟩
  · rintro ⟨hlt, hnumber⟩
    rw [List.getElem?_range hlt, Option.map_some] at hnumbers
    obtain ⟨found, hfound, hsame⟩ := Option.map_eq_some_iff.1 hnumbers
    rw [hfound, ext_number (hsame.trans hnumber.symm)]

end Date

namespace Calendar

/-! ## Lengths -/

theorem exists_firstOfMonth {year month : Int} (hyear : Date.supportsYear year = true)
    (hmonth : 1 ≤ month ∧ month ≤ 12) :
    ∃ date, firstOfMonth year month = .ok date ∧
      date.number = Gregorian.dayNumber year month 1 := by
  have hlength := Gregorian.monthLength_bounds year month
  obtain ⟨date, hdate, hnumber⟩ :=
    Date.exists_ofFields? hyear hmonth (show 1 ≤ 1 ∧ 1 ≤ _ by omega)
  refine ⟨date, ?_, hnumber⟩
  rw [firstOfMonth, if_pos hmonth, hdate]

theorem daysInMonth_eq {year month : Int} (hyear : Date.supportsYear year = true)
    (hmonth : 1 ≤ month ∧ month ≤ 12) :
    daysInMonth year month = .ok (Gregorian.monthLength year month) := by
  obtain ⟨date, hdate, -⟩ := exists_firstOfMonth hyear hmonth
  rw [daysInMonth, hdate]
  rfl

theorem daysInYear_eq {year : Int} (hyear : Date.supportsYear year = true) :
    daysInYear year = .ok (Gregorian.yearLength year) := by
  obtain ⟨date, hdate, -⟩ := exists_firstOfMonth hyear (show 1 ≤ 1 ∧ 1 ≤ 12 by omega)
  rw [daysInYear, isLeapYear, hdate]
  rfl

/-! ## Indices from either end -/

/-- An index names a place among `length` places: from 1 on, or from -1 backwards. -/
def Names (index place length : Int) : Prop :=
  index = place ∨ index = place - length - 1

theorem resolveIndex_eq_some_iff {length index place : Int} :
    resolveIndex length index = some place ↔
      (1 ≤ place ∧ place ≤ length) ∧ Names index place length := by
  unfold resolveIndex Names
  split
  · rw [Option.some_inj]
    omega
  · split
    · rw [Option.some_inj]
      omega
    · simp only [reduceCtorEq, false_iff]
      omega

theorem resolveMonthDay_eq {year month : Int} (index : Int)
    (hyear : Date.supportsYear year = true) (hmonth : 1 ≤ month ∧ month ≤ 12) :
    resolveMonthDay year month index =
      .ok (resolveIndex (Gregorian.monthLength year month) index) := by
  rw [resolveMonthDay, daysInMonth_eq hyear hmonth]
  rfl

/-- An index of a year resolves to the one day of the year whose place it names. -/
theorem resolveYearDay_spec {year : Int} (index : Int) (hyear : Date.supportsYear year = true) :
    ∃ found, resolveYearDay year index = .ok found ∧ ∀ date, found = some date ↔
      date.year = year ∧ Names index (date.yearIndex + 1) (Gregorian.yearLength year) := by
  obtain ⟨first, hfirst, hnumber⟩ := exists_firstOfMonth hyear (show 1 ≤ 1 ∧ 1 ≤ 12 by omega)
  have hplace : ∀ date : Date, date.year = year →
      (1 ≤ date.yearIndex + 1 ∧ date.yearIndex + 1 ≤ Gregorian.yearLength year) := by
    rintro date rfl
    have := date.yearIndex_nonneg
    have := date.yearIndex_lt
    omega
  rw [resolveYearDay, daysInYear_eq hyear]
  cases hindex : resolveIndex (Gregorian.yearLength year) index with
  | none =>
      refine ⟨none, by simp only [bind, Except.bind, hindex]; rfl, fun date => ?_⟩
      simp only [reduceCtorEq, false_iff, not_and]
      intro hdate hnames
      have hsome := resolveIndex_eq_some_iff.2 ⟨hplace date hdate, hnames⟩
      rw [hindex] at hsome
      cases hsome
  | some place =>
      have hresolved := resolveIndex_eq_some_iff.1 hindex
      refine ⟨first.addDays? (place - 1),
        by simp only [bind, Except.bind, hindex, hfirst]; rfl, fun date => ?_⟩
      have hjanuary : first.number = Gregorian.daysBeforeYear year := by
        rw [hnumber, Gregorian.dayNumber, Gregorian.daysBeforeMonth]
        simp
      rw [Date.addDays?, Date.ofNumber?_eq_some_iff, hjanuary]
      constructor
      · intro h
        have hyear' : date.year = year := by
          rw [Date.year, Gregorian.yearOf_eq_iff, Gregorian.daysBeforeYear_succ]
          omega
        have hindex' : date.yearIndex + 1 = place := by
          rw [Date.yearIndex, hyear']
          omega
        exact ⟨hyear', hindex' ▸ hresolved.2⟩
      · rintro ⟨hdate, hnames⟩
        have hsame := resolveIndex_eq_some_iff.2 ⟨hplace date hdate, hnames⟩
        rw [hindex, Option.some_inj] at hsame
        rw [date.number_eq, hdate]
        omega

/-! ## Weeks of the year -/

/-- The Thursday of a week that holds a date is itself a date: the calendar begins on a Monday
and ends on a Friday. -/
theorem supportsYear_ofDate (date : Date) :
    Date.supportsYear (IsoWeek.ofDate date).year = true := by
  have hfirst := date.first_le
  have hlast := date.le_last
  have hoffset := date.offset_weekday
  refine Gregorian.supportsYear_yearOf ?_ ?_ <;> unfold IsoWeek.thursdayNumber <;> omega

theorem isoWeeksInYear_eq {year : Int} (hyear : Date.supportsYear year = true) :
    isoWeeksInYear year = .ok (IsoWeek.weeksInYear year) := by
  rw [isoWeeksInYear, if_pos hyear]

theorem week_bounds (date : Date) :
    1 ≤ (IsoWeek.ofDate date).week ∧ (IsoWeek.ofDate date).week ≤ 53 := by
  have hle := Gregorian.daysBeforeYear_le_yearOf (IsoWeek.thursdayNumber date)
  have hlt := Gregorian.lt_daysBeforeYear_yearOf (IsoWeek.thursdayNumber date)
  have hlength := Gregorian.yearLength_bounds (Gregorian.yearOf (IsoWeek.thursdayNumber date))
  rw [Gregorian.daysBeforeYear_succ] at hlt
  unfold IsoWeek.ofDate
  dsimp only
  omega

theorem weeksInYear_bounds (year : Int) :
    52 ≤ IsoWeek.weeksInYear year ∧ IsoWeek.weeksInYear year ≤ 53 := by
  have hlength := Gregorian.yearLength_bounds year
  unfold IsoWeek.weeksInYear
  dsimp only
  omega

/-! ## Places from either end -/

/-- The value with a place in a list, counted from 1, or from -1 backwards. -/
def nthOf {α : Type} (values : List α) (place : Int) : Option α :=
  if 0 < place then values[(place - 1).toNat]?
  else if place < 0 then values.reverse[(-place - 1).toNat]?
  else none

section Places

variable {α : Type} {values : List α} {place : Int}

theorem nthOf_of_pos (h : 0 < place) : nthOf values place = values[place.natAbs - 1]? := by
  rw [nthOf, if_pos h]
  congr 1
  omega

theorem nthOf_of_neg (h : place < 0) :
    nthOf values place = values.reverse[place.natAbs - 1]? := by
  rw [nthOf, if_neg (by omega), if_pos h]
  congr 1
  omega

theorem nthOf_eq_none_iff (h : place ≠ 0) :
    nthOf values place = none ↔ values.length < place.natAbs := by
  rcases Int.lt_or_gt_of_ne h with hneg | hpos
  · rw [nthOf_of_neg hneg, List.getElem?_eq_none_iff, List.length_reverse]
    omega
  · rw [nthOf_of_pos hpos, List.getElem?_eq_none_iff]
    omega

/-- A place leads to a value when it names a position of the value. -/
theorem nthOf_eq_some_iff_exists {a : α} :
    nthOf values place = some a ↔
      ∃ k : Nat, values[k]? = some a ∧ Names place (k + 1) values.length := by
  have hlt : ∀ {k : Nat}, values[k]? = some a → k < values.length := fun h =>
    (List.getElem?_eq_some_iff.1 h).1
  unfold Names
  rcases lt_trichotomy place 0 with hneg | rfl | hpos
  · rw [nthOf_of_neg hneg]
    constructor
    · intro h
      have hback : place.natAbs - 1 < values.length := by
        simpa using (List.getElem?_eq_some_iff.1 h).1
      rw [List.getElem?_reverse hback] at h
      exact ⟨_, h, by omega⟩
    · rintro ⟨k, hk, hnames⟩
      have := hlt hk
      rw [List.getElem?_reverse (by omega), ← hk]
      congr 1
      omega
  · simp only [nthOf, lt_self_iff_false, if_false, reduceCtorEq, false_iff, not_exists, not_and]
    intro k hk
    have := hlt hk
    omega
  · rw [nthOf_of_pos hpos]
    constructor
    · intro h
      exact ⟨_, h, by omega⟩
    · rintro ⟨k, hk, hnames⟩
      have := hlt hk
      rw [← hk]
      congr 1
      omega

/-- Where no value is repeated, a place leads to a value when it names the value's position. -/
theorem nthOf_eq_some_iff (hnodup : values.Nodup) {a : α} {k : Nat} (ha : values[k]? = some a) :
    nthOf values place = some a ↔ Names place (k + 1) values.length := by
  rw [nthOf_eq_some_iff_exists]
  constructor
  · rintro ⟨j, hj, hnames⟩
    have hj' : j < values.length := (List.getElem?_eq_some_iff.1 hj).1
    rwa [(List.getElem?_inj hj' hnodup).1 (hj.trans ha.symm)] at hnames
  · intro hnames
    exact ⟨k, ha, hnames⟩

end Places

/-! ## The n-th weekday of a range -/

/-- The days of a range that fall on a weekday, in order. -/
def weekdaysOf (first last : Date) (weekday : Weekday) : List Date :=
  (first.upTo last).filter fun date => date.weekday = weekday

/-- The number of the first day from a date on that falls on a weekday. -/
def firstNumber (first : Date) (weekday : Weekday) : Int :=
  first.number + weekday.daysAfter first.weekday

/-- How many days of a range fall on a weekday. -/
def weekdayCount (first last : Date) (weekday : Weekday) : Nat :=
  ((last.number - firstNumber first weekday) / 7 + 1).toNat

theorem firstNumber_bounds (first : Date) (weekday : Weekday) :
    first.number ≤ firstNumber first weekday ∧ firstNumber first weekday ≤ first.number + 6 := by
  unfold firstNumber Weekday.daysAfter
  omega

/-- From a date on, a day falls on a weekday when it lies whole weeks after the first that does. -/
theorem weekday_eq_iff (first : Date) {date : Date} {weekday : Weekday} :
    date.weekday = weekday ↔ (date.number - firstNumber first weekday) % 7 = 0 := by
  have hdate := date.offset_weekday
  have hfirst := first.offset_weekday
  have hlow := weekday.offset_nonneg
  have hhigh := weekday.offset_lt
  unfold firstNumber Weekday.daysAfter
  constructor
  · rintro rfl
    omega
  · intro h
    rw [← weekday.ofOffset_offset, ← date.weekday.ofOffset_offset]
    congr 1
    omega

@[simp] theorem mem_weekdaysOf {first last date : Date} {weekday : Weekday} :
    date ∈ weekdaysOf first last weekday ↔
      (first ≤ date ∧ date ≤ last) ∧ date.weekday = weekday := by
  simp only [weekdaysOf, List.mem_filter, Date.mem_upTo, decide_eq_true_eq]

theorem pairwise_weekdaysOf (first last : Date) (weekday : Weekday) :
    (weekdaysOf first last weekday).Pairwise (· < ·) :=
  (Date.pairwise_upTo first last).filter _

/-- The days of a range that fall on a weekday are a progression by sevens. -/
theorem map_number_weekdaysOf (first last : Date) (weekday : Weekday) :
    (weekdaysOf first last weekday).map Date.number =
      (List.range (weekdayCount first last weekday)).map fun (k : Nat) =>
        firstNumber first weekday + 7 * k := by
  have hfirst := firstNumber_bounds first weekday
  have hstart := first.first_le
  have hend := last.le_last
  refine Date.map_number_eq_map_range (pairwise_weekdaysOf first last weekday)
    (fun hjk => by omega) fun n => ?_
  simp only [mem_weekdaysOf, Date.le_iff, weekday_eq_iff first, weekdayCount]
  constructor
  · rintro ⟨date, ⟨⟨hge, hle⟩, hweekday⟩, rfl⟩
    exact ⟨((date.number - firstNumber first weekday) / 7).toNat, by omega, by omega⟩
  · rintro ⟨k, hk, rfl⟩
    exact ⟨⟨firstNumber first weekday + 7 * k, by omega, by omega⟩, by dsimp only; omega, rfl⟩

theorem getElem?_weekdaysOf {first last date : Date} {weekday : Weekday} {k : Nat} :
    (weekdaysOf first last weekday)[k]? = some date ↔
      k < weekdayCount first last weekday ∧
        date.number = firstNumber first weekday + 7 * k :=
  Date.getElem?_of_map_number (map_number_weekdaysOf first last weekday)

theorem length_weekdaysOf (first last : Date) (weekday : Weekday) :
    (weekdaysOf first last weekday).length = weekdayCount first last weekday := by
  have h := congrArg List.length (map_number_weekdaysOf first last weekday)
  simpa using h

/-- The jump by whole weeks finds what a scan of the range finds. -/
theorem nthWeekday_eq {first last : Date} (hle : first ≤ last) (weekday : Weekday) {place : Int}
    (hplace : place ≠ 0) :
    nthWeekday first last weekday place = .ok (nthOf (weekdaysOf first last weekday) place) := by
  have hfirst := first.offset_weekday
  have hlast := last.offset_weekday
  have hlow := weekday.offset_nonneg
  have hhigh := weekday.offset_lt
  have hcount := length_weekdaysOf first last weekday
  rw [Date.le_iff] at hle
  rw [nthWeekday, if_neg hplace, if_neg (by rw [Date.lt_iff]; omega)]
  refine congrArg Except.ok (Option.ext fun date => ?_)
  simp only [Option.filter_eq_some_iff, Bool.and_eq_true, decide_eq_true_eq, Date.le_iff, nthOf]
  by_cases hpos : 0 < place
  · rw [if_pos hpos, if_pos hpos, getElem?_weekdaysOf, Date.addDays?, Date.ofNumber?_eq_some_iff]
    unfold weekdayCount firstNumber Weekday.daysAfter
    omega
  · have hneg : place < 0 := by omega
    rw [if_neg hpos, if_neg hpos, if_pos hneg, Date.addDays?, Date.ofNumber?_eq_some_iff]
    by_cases hlt : (-place - 1).toNat < (weekdaysOf first last weekday).length
    · rw [List.getElem?_reverse hlt, getElem?_weekdaysOf, hcount]
      rw [hcount] at hlt
      unfold weekdayCount firstNumber Weekday.daysAfter at *
      omega
    · rw [List.getElem?_eq_none (by rw [List.length_reverse]; omega)]
      rw [hcount] at hlt
      unfold weekdayCount firstNumber Weekday.daysAfter at hlt
      unfold Weekday.daysAfter
      simp only [reduceCtorEq, iff_false]
      omega

end Calendar

end Recurrence
