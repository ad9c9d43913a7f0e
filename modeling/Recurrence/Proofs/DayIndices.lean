import Recurrence.Proofs.FixedWidth

/-!
# Indices of days

A day of a month, or of a year, is named by its place among the days there, counted from 1 on or
from -1 backwards. To resolve an index is to look that place up in the list of the days
(`resolveMonthDay_eq_nthOf`, `resolveYearDay_eq_nthOf`), however the length of the month and of the
year came about. What is said of indices in general is then a matter of lists: `FromBothEnds`
gathers it, and `FromBothEnds.of_nthOf` shows it of any list without repetitions that is short
enough for the width of its indices.

`indices_name_days` puts both together, for all indices of eight and of sixteen bits.
-/

namespace Recurrence

open FixedWidth (Halt Follows)

/-! ## Days by place -/

theorem Period.exists_days_by_place {period : Period} (h : period.Valid) :
    ∃ days : List Date, days.Pairwise (· < ·) ∧
      (∀ date, date ∈ days ↔
        period.firstNumber ≤ date.number ∧ date.number ≤ period.lastNumber) ∧
      days.length = period.lastNumber - period.firstNumber + 1 ∧
      days.map Date.number = (List.range days.length).map fun (k : Nat) =>
        period.firstNumber + k := by
  obtain ⟨first, -, hfirst⟩ := exists_firstDay h
  obtain ⟨last, -, hlast⟩ := exists_lastDay h
  obtain ⟨days, -, hascending, hmem⟩ := exists_days h
  have hnumbers := Date.map_number_of_mem_iff hascending (hfirst ▸ first.first_le)
    (hlast ▸ last.le_last) hmem
  have hlength := congrArg List.length hnumbers
  simp only [List.length_map, List.length_range] at hlength
  have hle := firstNumber_le_lastNumber h
  exact ⟨days, hascending, hmem, by omega, by rw [hlength, hnumbers]⟩

namespace Calendar

variable {year month : Int}

/-- The days of a month, in order, are numbered through from one. -/
theorem exists_daysOfMonth (hyear : Date.supportsYear year = true)
    (hmonth : 1 ≤ month ∧ month ≤ 12) :
    ∃ days : List Date, days.Pairwise (· < ·) ∧
      (∀ date, date ∈ days ↔ date.year = year ∧ date.month = month) ∧
      days.length = Gregorian.monthLength year month ∧
      days.map Date.day = (List.range days.length).map fun (k : Nat) => (k : Int) + 1 := by
  obtain ⟨days, hascending, hmem, hlength, hnumbers⟩ :=
    Period.exists_days_by_place (show (Period.month year month).Valid from ⟨hyear, hmonth⟩)
  have hfields : ∀ date, date ∈ days ↔ date.year = year ∧ date.month = month :=
    fun date => (hmem date).trans (Period.number_mem_month_iff hyear hmonth).symm
  simp only [Period.firstNumber, Period.lastNumber] at hlength hnumbers
  refine ⟨days, hascending, hfields, by omega, ?_⟩
  have hday : ∀ date ∈ days,
      date.day = date.number - Gregorian.dayNumber year month 1 + 1 := by
    intro date hdate
    have hnumber := date.dayNumber_fields
    rw [((hfields date).1 hdate).1, ((hfields date).1 hdate).2] at hnumber
    rw [← hnumber]
    unfold Gregorian.dayNumber
    omega
  calc
    days.map Date.day = (days.map Date.number).map fun number =>
        number - Gregorian.dayNumber year month 1 + 1 := by
      rw [List.map_map]
      exact List.map_congr_left hday
    _ = (List.range days.length).map fun (k : Nat) => (k : Int) + 1 := by
      rw [hnumbers, List.map_map]
      refine List.map_congr_left fun k _ => ?_
      rw [Function.comp_apply]
      omega

/-- The days of a year, in order, have as many days of the year before them as their place says. -/
theorem exists_daysOfYear (hyear : Date.supportsYear year = true) :
    ∃ days : List Date, days.Pairwise (· < ·) ∧
      (∀ date, date ∈ days ↔ date.year = year) ∧
      days.length = Gregorian.yearLength year ∧
      ∀ {k : Nat} {date : Date}, days[k]? = some date ↔ date.year = year ∧ date.yearIndex = k := by
  obtain ⟨days, hascending, hmem, hlength, hnumbers⟩ :=
    Period.exists_days_by_place (show (Period.year year).Valid from hyear)
  have hsucc := Gregorian.daysBeforeYear_succ year
  simp only [Period.firstNumber, Period.lastNumber] at hlength hnumbers hmem
  have hfields : ∀ date, date ∈ days ↔ date.year = year := fun date => by
    rw [hmem, Date.year, Gregorian.yearOf_eq_iff]
    omega
  refine ⟨days, hascending, hfields, by omega, fun {k date} => ?_⟩
  rw [Date.getElem?_of_map_number hnumbers, ← hfields, hmem, Date.yearIndex]
  constructor
  · rintro ⟨hlt, hnumber⟩
    have hin : date.year = year := by
      rw [Date.year, Gregorian.yearOf_eq_iff]
      omega
    rw [hin]
    omega
  · rintro ⟨hin, hindex⟩
    have hyear' := (hfields date).1 ((hmem date).2 hin)
    rw [hyear'] at hindex
    omega

/-! ## Indices and places -/

theorem resolveMonthDay_eq_nthOf (hyear : Date.supportsYear year = true)
    (hmonth : 1 ≤ month ∧ month ≤ 12) {days : List Date}
    (hlength : days.length = Gregorian.monthLength year month)
    (hdays : days.map Date.day = (List.range days.length).map fun (k : Nat) => (k : Int) + 1)
    (index : Int) :
    resolveMonthDay year month index = .ok (nthOf (days.map Date.day) index) := by
  rw [resolveMonthDay_eq index hyear hmonth, ← hlength]
  refine congrArg Except.ok (Option.ext fun day => ?_)
  rw [resolveIndex_eq_some_iff, nthOf_eq_some_iff_exists, List.length_map]
  simp only [hdays, List.getElem?_map, Option.map_eq_some_iff, List.getElem?_eq_some_iff,
    List.getElem_range, List.length_range]
  constructor
  · rintro ⟨hbounds, hnames⟩
    refine ⟨(day - 1).toNat, ⟨_, ⟨by omega, rfl⟩, by omega⟩, ?_⟩
    rwa [show ((day - 1).toNat : Int) + 1 = day by omega]
  · rintro ⟨k, ⟨_, ⟨hlt, rfl⟩, rfl⟩, hnames⟩
    exact ⟨by omega, hnames⟩

theorem resolveYearDay_eq_nthOf (hyear : Date.supportsYear year = true) {days : List Date}
    (hlength : days.length = Gregorian.yearLength year)
    (hdays : ∀ {k : Nat} {date : Date},
      days[k]? = some date ↔ date.year = year ∧ date.yearIndex = k) (index : Int) :
    resolveYearDay year index = .ok (nthOf days index) := by
  obtain ⟨found, hfound, hnames⟩ := resolveYearDay_spec index hyear
  rw [hfound]
  refine congrArg Except.ok (Option.ext fun date => ?_)
  rw [hnames, nthOf_eq_some_iff_exists, hlength]
  constructor
  · rintro ⟨hdate, hname⟩
    have hnonneg := date.yearIndex_nonneg
    have hindex : date.yearIndex = (date.yearIndex.toNat : Int) := by omega
    exact ⟨date.yearIndex.toNat, hdays.2 ⟨hdate, hindex⟩, hindex ▸ hname⟩
  · rintro ⟨k, hk, hname⟩
    obtain ⟨hdate, hindex⟩ := hdays.1 hk
    exact ⟨hdate, hindex ▸ hname⟩

/-! ## Naming from both ends -/

/-- The indices of a width name the values of a list from both ends: each value has one index above
zero and one below, no other index names anything, and -1 names the last value. Resolving an index
never fails, and the numbers on the way fit the width. -/
structure FromBothEnds {ι α : Type} (toInt : ι → Int) (values : List α)
    (resolve : Int → Except Fault (Option α)) (limited : Int → Except Halt (Option α)) : Prop where
  fits : ∀ index, ∃ found, resolve (toInt index) = .ok found ∧ limited (toInt index) = .ok found
  above : ∀ value ∈ values, ∃! index,
    0 < toInt index ∧ resolve (toInt index) = .ok (some value)
  below : ∀ value ∈ values, ∃! index,
    toInt index < 0 ∧ resolve (toInt index) = .ok (some value)
  others : ∀ index, resolve (toInt index) = .ok none ↔
    toInt index = 0 ∨ values.length < (toInt index).natAbs
  last : resolve (-1) = .ok values.getLast?

theorem FromBothEnds.of_nthOf {ι α : Type} {toInt : ι → Int} {values : List α}
    {resolve : Int → Except Fault (Option α)} {limited : Int → Except Halt (Option α)}
    (hinjective : Function.Injective toInt)
    (hwide : ∀ n : Int, n.natAbs ≤ values.length → ∃ index, toInt index = n)
    (hnodup : values.Nodup) (hresolve : ∀ n, resolve n = .ok (nthOf values n))
    (hlimited : ∀ n, Follows (limited n) (resolve n)) :
    FromBothEnds toInt values resolve limited := by
  have hplace : ∀ value ∈ values, ∃ k < values.length, ∀ n,
      resolve n = .ok (some value) ↔ Names n (k + 1) values.length := by
    intro value hvalue
    obtain ⟨k, hk⟩ := List.mem_iff_getElem?.1 hvalue
    refine ⟨k, (List.getElem?_eq_some_iff.1 hk).1, fun n => ?_⟩
    rw [hresolve, Except.ok.injEq, nthOf_eq_some_iff hnodup hk]
  constructor
  case fits => exact fun index => ⟨_, hresolve _, hlimited _ _ (hresolve _)⟩
  case above =>
    intro value hvalue
    obtain ⟨k, hlt, hk⟩ := hplace value hvalue
    obtain ⟨index, hindex⟩ := hwide (k + 1) (by omega)
    simp only [hk, Names]
    exact ⟨index, by omega, fun other hother => hinjective (by omega)⟩
  case below =>
    intro value hvalue
    obtain ⟨k, hlt, hk⟩ := hplace value hvalue
    obtain ⟨index, hindex⟩ := hwide (k - values.length) (by omega)
    simp only [hk, Names]
    exact ⟨index, by omega, fun other hother => hinjective (by omega)⟩
  case others =>
    intro index
    rw [hresolve, Except.ok.injEq]
    by_cases hzero : toInt index = 0
    · simp [nthOf, hzero]
    · rw [nthOf_eq_none_iff hzero]
      exact (or_iff_right hzero).symm
  case last =>
    rw [hresolve, nthOf_of_neg (by decide), ← List.head?_reverse, List.head?_eq_getElem?]
    rfl

/-- An index of a month or of a year names the day whose place it is, counted from either end, and
names it alone. The lengths of month and year are the numbers of their days, and indices of eight
and of sixteen bits suffice. -/
theorem indices_name_days {year : Int} (hyear : Date.supportsYear year = true) :
    (∀ month : Int, 1 ≤ month ∧ month ≤ 12 → ∃ days : List Date, days.Pairwise (· < ·) ∧
      (∀ date, date ∈ days ↔ date.year = year ∧ date.month = month) ∧
      daysInMonth year month = .ok days.length ∧
      (∀ (index : Int8) (day : Int), resolveMonthDay year month index.toInt = .ok (some day) ↔
        (1 ≤ day ∧ day ≤ days.length) ∧
          (index.toInt = day ∨ index.toInt = day - days.length - 1)) ∧
      FromBothEnds Int8.toInt (days.map Date.day) (resolveMonthDay year month)
        (FixedWidth.resolveMonthDay year month)) ∧
    ∃ days : List Date, days.Pairwise (· < ·) ∧ (∀ date, date ∈ days ↔ date.year = year) ∧
      daysInYear year = .ok days.length ∧
      (∀ (index : Int16) (date : Date), resolveYearDay year index.toInt = .ok (some date) ↔
        ∃ before : Nat, days[before]? = some date ∧
          (before + 1 = index.toInt ∨ before + 1 = index.toInt + days.length + 1)) ∧
      FromBothEnds Int16.toInt days (resolveYearDay year) (FixedWidth.resolveYearDay year) := by
  constructor
  · intro month hmonth
    obtain ⟨days, hascending, hmem, hlength, hdays⟩ := exists_daysOfMonth hyear hmonth
    have hresolve := resolveMonthDay_eq_nthOf hyear hmonth hlength hdays
    have hbounds := Gregorian.monthLength_bounds year month
    have hnodup : (days.map Date.day).Nodup := by
      rw [hdays]
      exact List.nodup_range.map fun j k hjk => by omega
    refine ⟨days, hascending, hmem, ?_, fun index day => ?_, .of_nthOf
      (fun a b h => Int8.toInt_inj.1 h) (fun n hn => ⟨.ofInt n, ?_⟩) hnodup hresolve
      (FixedWidth.follows_resolveMonthDay year month)⟩
    · rw [daysInMonth_eq hyear hmonth, hlength]
    · rw [resolveMonthDay_eq index.toInt hyear hmonth, Except.ok.injEq, resolveIndex_eq_some_iff,
        ← hlength, Names]
    · rw [List.length_map] at hn
      exact Int8.toInt_ofInt_of_le (by omega) (by omega)
  · obtain ⟨days, hascending, hmem, hlength, hdays⟩ := exists_daysOfYear hyear
    have hresolve := resolveYearDay_eq_nthOf hyear hlength hdays
    have hbounds := Gregorian.yearLength_bounds year
    refine ⟨days, hascending, hmem, ?_, fun index date => ?_, .of_nthOf
      (fun a b h => Int16.toInt_inj.1 h) (fun n hn => ⟨.ofInt n, ?_⟩) hascending.nodup hresolve
      (FixedWidth.follows_resolveYearDay year)⟩
    · rw [daysInYear_eq hyear, hlength]
    · rw [hresolve, Except.ok.injEq, nthOf_eq_some_iff_exists]
      refine exists_congr fun before => and_congr_right fun _ => ?_
      unfold Names
      omega
    · exact Int16.toInt_ofInt_of_le (by omega) (by omega)

/-- In the first leap year of the calendar, twenty-nine days back from the end of February is its
first day, and a day further is none; the first day of the year is 366 days back from its end. -/
theorem indices_name_days_leapYear :
    Date.supportsYear (-9996) = true ∧ ((1 : Int) ≤ 2 ∧ (2 : Int) ≤ 12) ∧
      resolveMonthDay (-9996) 2 (-29 : Int8).toInt = .ok (some 1) ∧
      resolveMonthDay (-9996) 2 (-30 : Int8).toInt = .ok none ∧
      ∃ days : List Date, (∀ date, date ∈ days ↔ date.year = -9996) ∧ days.length = 366 ∧
        resolveYearDay (-9996) (-366 : Int16).toInt = .ok days.head? ∧
        resolveYearDay (-9996) (-1) = .ok days.getLast? := by
  have hyear : Date.supportsYear (-9996) = true := by decide
  have hmonth : (1 : Int) ≤ 2 ∧ (2 : Int) ≤ 12 := by decide
  obtain ⟨hmonths, days, -, hmem, hlength, hnames, hends⟩ := indices_name_days hyear
  obtain ⟨february, -, -, hfebruary, hday, hdays⟩ := hmonths 2 hmonth
  have hmonthLength : daysInMonth (-9996) 2 = .ok 29 := by decide
  have hyearLength : daysInYear (-9996) = .ok 366 := by decide
  have h29 : february.length = 29 := by
    have := Except.ok.inj (hfebruary.symm.trans hmonthLength)
    omega
  have h366 : days.length = 366 := by
    have := Except.ok.inj (hlength.symm.trans hyearLength)
    omega
  refine ⟨hyear, hmonth, (hday (-29) 1).2 ?_, (hdays.others (-30)).2 ?_, days, hmem, h366, ?_,
    hends.last⟩
  · rw [h29]
    decide
  · rw [List.length_map, h29]
    decide
  · have hhead : days.head? = some days[0] := List.head?_eq_getElem? ▸ List.getElem?_eq_getElem _
    rw [hhead, hnames (-366)]
    exact ⟨0, List.getElem?_eq_getElem _, Or.inr (by rw [h366]; decide)⟩

end Calendar

end Recurrence
