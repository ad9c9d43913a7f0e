import Recurrence.Command.Report
import Recurrence.Proofs.Order
import Recurrence.Proofs.TableLayout
import Recurrence.Proofs.Texts

/-!
# What a row of a listing says

A row shows an occurrence under a number, as in `#2  2024-01-07 00:00:00  Sun`. `IsRow` says what
that means by what can be read in the row, and not by how it was written. A field of a date or of a
clock reading is so many digits that have its value, the fields are those that make the date-time,
and the name of the weekday is found by counting the days from a Monday.

So a row leaves nothing open but what is smaller than a second: rows of the same text have the same
number and show the same moment (`IsRow.unique`). The lines of a listing are such rows, whatever the
widths of its columns (`exists_rows`).
-/

namespace Recurrence

namespace Text

/-! ## Numbers in a text -/

/-- A text is a number in so many digits. -/
structure IsNumeral (places value : Nat) (text : List Char) : Prop where
  length_eq : text.length = places
  isDigit : ∀ c ∈ text, c.isDigit = true
  value_eq : Nat.ofDigitChars 10 text 0 = value

theorem isNumeral_fixedDigits {width value : Nat} (h : value < 10 ^ width) :
    IsNumeral width value (fixedDigits width value) where
  length_eq := length_fixedDigits width value
  isDigit _ hc := isDigit_of_mem_fixedDigits hc
  value_eq := (ofDigitChars_fixedDigits width value).trans (Nat.mod_eq_of_lt h)

/-- A text is a year. It takes four places, and before year 0 a minus sign is put into the first of
them, or in front where all four are digits. -/
def IsYear (year : Int) (text : List Char) : Prop :=
  if year < 0 then
    ∃ digits, text = '-' :: digits ∧
      IsNumeral (if year ≤ -1000 then 4 else 3) year.natAbs digits
  else
    IsNumeral 4 year.natAbs text

/-- A text is three parts with a mark between them, of which the last two are numbers of two
digits. -/
def IsJoined (mark : Char) (p : List Char → Prop) (second third : Nat) (text : List Char) : Prop :=
  ∃ a b c, p a ∧ IsNumeral 2 second b ∧ IsNumeral 2 third c ∧ text = a ++ mark :: (b ++ mark :: c)

section

variable {c mark : Char} {places value second third second' third' : Nat} {year year' : Int}
  {p q : List Char → Prop} {text : List Char}

theorem IsNumeral.notMem (h : IsNumeral places value text) (hc : c.isDigit = false) : c ∉ text :=
  fun hmem => absurd (h.isDigit c hmem) (by simp [hc])

theorem IsYear.notMem (h : IsYear year text) (hc : c.isDigit = false) (hsign : c ≠ '-') :
    c ∉ text := by
  unfold IsYear at h
  split at h
  next =>
    obtain ⟨digits, rfl, hdigits⟩ := h
    exact List.not_mem_cons_of_ne_of_not_mem hsign (hdigits.notMem hc)
  next => exact h.notMem hc

theorem IsJoined.notMem (h : IsJoined mark p second third text) (hc : c.isDigit = false)
    (hmark : c ≠ mark) (hfirst : ∀ first, p first → c ∉ first) : c ∉ text := by
  obtain ⟨a, b, d, ha, hb, hd, rfl⟩ := h
  simp [hfirst a ha, hmark, hb.notMem hc, hd.notMem hc]

theorem IsNumeral.unique (h : IsNumeral places value text) {places' value' : Nat}
    (h' : IsNumeral places' value' text) : value = value' :=
  h.value_eq.symm.trans h'.value_eq

theorem IsYear.unique (h : IsYear year text) (h' : IsYear year' text) : year = year' := by
  unfold IsYear at h h'
  split at h <;> split at h'
  next =>
    obtain ⟨digits, rfl, hdigits⟩ := h
    obtain ⟨_, ⟨⟩, hdigits'⟩ := h'
    have hvalue := hdigits.unique hdigits'
    omega
  next =>
    obtain ⟨digits, rfl, -⟩ := h
    exact absurd (h'.isDigit '-' List.mem_cons_self) (by decide)
  next =>
    obtain ⟨digits, rfl, -⟩ := h'
    exact absurd (h.isDigit '-' List.mem_cons_self) (by decide)
  next =>
    have hvalue := h.unique h'
    omega

/-- The last two parts have their length, so the parts of a text are known from its end. -/
theorem IsJoined.unique (h : IsJoined mark p second third text)
    (h' : IsJoined mark q second' third' text) :
    (∃ first, p first ∧ q first) ∧ second = second' ∧ third = third' := by
  obtain ⟨a, b, d, ha, hb, hd, rfl⟩ := h
  obtain ⟨a', b', d', ha', hb', hd', heq⟩ := h'
  have hlength : (mark :: (b ++ mark :: d)).length = (mark :: (b' ++ mark :: d')).length := by
    simp only [List.length_cons, List.length_append, hb.length_eq, hd.length_eq, hb'.length_eq,
      hd'.length_eq]
  obtain ⟨rfl, hrest⟩ := List.append_inj' heq hlength
  obtain ⟨rfl, hlast⟩ := List.append_inj (List.tail_eq_of_cons_eq hrest)
    (hb.length_eq.trans hb'.length_eq.symm)
  obtain rfl := List.tail_eq_of_cons_eq hlast
  exact ⟨⟨a, ha, ha'⟩, hb.unique hb', hd.unique hd'⟩

end

/-- What stands before the first mark in a text, and what behind it, is known from the text. -/
theorem eq_of_append_cons {mark : Char} {front front' rest rest' : List Char} (h : mark ∉ front)
    (h' : mark ∉ front') (heq : front ++ mark :: rest = front' ++ mark :: rest') :
    front = front' ∧ rest = rest' := by
  induction front generalizing front' with
  | nil =>
      cases front' with
      | nil => exact ⟨rfl, List.tail_eq_of_cons_eq heq⟩
      | cons d front' =>
          obtain rfl := List.head_eq_of_cons_eq heq
          exact absurd List.mem_cons_self h'
  | cons c front ih =>
      cases front' with
      | nil =>
          obtain rfl := List.head_eq_of_cons_eq heq
          exact absurd List.mem_cons_self h
      | cons d front' =>
          obtain ⟨hfront, hrest⟩ := ih (List.not_mem_of_not_mem_cons h)
            (List.not_mem_of_not_mem_cons h') (List.tail_eq_of_cons_eq heq)
          exact ⟨congrArg₂ List.cons (List.head_eq_of_cons_eq heq) hfront, hrest⟩

end Text

open Text

/-! ## Dates and clock readings in a text -/

/-- A text is a date: a year, a month and a day that make it. -/
def Date.IsShown (date : Date) (text : List Char) : Prop :=
  ∃ (year : Int) (month day : Nat),
    ofFields? year month day = some date ∧ IsJoined '-' (IsYear year) month day text

/-- A text is the clock reading of a date-time: an hour, a minute and a second that make it. -/
def DateTime.IsClockShown (t : DateTime) (text : List Char) : Prop :=
  ∃ hour minute second : Nat,
    ofClock? t.date hour minute second t.nano = some t ∧
      IsJoined ':' (IsNumeral 2 hour) minute second text

theorem Date.IsShown.notMem {date : Date} {text : List Char} (h : date.IsShown text) {c : Char}
    (hc : c.isDigit = false) (hmark : c ≠ '-') : c ∉ text := by
  obtain ⟨year, month, day, -, hjoined⟩ := h
  exact hjoined.notMem hc hmark fun first hfirst => hfirst.notMem hc hmark

theorem Date.IsShown.unique {date date' : Date} {text : List Char} (h : date.IsShown text)
    (h' : date'.IsShown text) : date = date' := by
  obtain ⟨year, month, day, hdate, hjoined⟩ := h
  obtain ⟨year', month', day', hdate', hjoined'⟩ := h'
  obtain ⟨⟨first, hyear, hyear'⟩, rfl, rfl⟩ := hjoined.unique hjoined'
  obtain rfl := hyear.unique hyear'
  exact Option.some_inj.1 (hdate.symm.trans hdate')

namespace DateTime

theorem IsClockShown.notMem {t : DateTime} {text : List Char} (h : t.IsClockShown text) {c : Char}
    (hc : c.isDigit = false) (hmark : c ≠ ':') : c ∉ text := by
  obtain ⟨hour, minute, second, -, hjoined⟩ := h
  exact hjoined.notMem hc hmark fun first hfirst => hfirst.notMem hc

theorem IsClockShown.unique {t u : DateTime} {text : List Char} (h : t.IsClockShown text)
    (h' : u.IsClockShown text) (hdate : t.date = u.date) : t.wholeSecond = u.wholeSecond := by
  obtain ⟨hour, minute, second, ht, hjoined⟩ := h
  obtain ⟨hour', minute', second', hu, hjoined'⟩ := h'
  obtain ⟨⟨first, hhour, hhour'⟩, rfl, rfl⟩ := hjoined.unique hjoined'
  obtain rfl := hhour.unique hhour'
  obtain ⟨-, hthour, htminute, htsecond, -⟩ := ofClock?_eq_some_iff.1 ht
  obtain ⟨-, huhour, huminute, husecond, -⟩ := ofClock?_eq_some_iff.1 hu
  refine ext_fields ?_ rfl
  show t.second = u.second
  rw [t.second_eq, u.second_eq, hdate, hthour, huhour, htminute, huminute, htsecond, husecond]

theorem isYear_tableYearChars {year : Int} (h : -9999 ≤ year ∧ year ≤ 9999) :
    IsYear year (tableYearChars year) := by
  unfold IsYear tableYearChars
  split
  next hneg =>
    refine ⟨_, rfl, isNumeral_fixedDigits ?_⟩
    split <;> omega
  next hpos => exact isNumeral_fixedDigits (by omega)

theorem isClockShown_clockChars (t : DateTime) : t.IsClockShown t.clockChars := by
  obtain ⟨hhour, hminute, hsecond⟩ := t.clock_bounds
  have hfields : ofClock? t.date t.hour.toNat t.minute.toNat t.secondOfMinute.toNat t.nano =
      some t := by
    rw [Int.toNat_of_nonneg hhour.1, Int.toNat_of_nonneg hminute.1, Int.toNat_of_nonneg hsecond.1,
      t.ofClock?_fields]
  refine ⟨_, _, _, hfields, _, _, _, isNumeral_fixedDigits ?_, isNumeral_fixedDigits ?_,
    isNumeral_fixedDigits ?_, by rw [clockChars, List.append_assoc, List.cons_append]⟩
  all_goals omega

/-- A table shows the date and the clock reading of a date-time. -/
theorem exists_tableChars_eq (t : DateTime) : ∃ date clock, t.date.IsShown date ∧
    t.IsClockShown clock ∧ t.tableChars = date ++ ' ' :: clock := by
  obtain ⟨hmonth, hmonth', hday, hday'⟩ := t.date.fields_valid
  have hlength := Gregorian.monthLength_bounds t.date.year t.date.month
  have hyear := Date.supportsYear_iff.1 t.date.supportsYear_year
  have hfields : Date.ofFields? t.date.year t.date.month.toNat t.date.day.toNat = some t.date := by
    rw [Int.toNat_of_nonneg (by omega), Int.toNat_of_nonneg (by omega), t.date.ofFields?_fields]
  refine ⟨_, t.clockChars, ⟨_, _, _, hfields, _, _, _, isYear_tableYearChars hyear,
    isNumeral_fixedDigits ?_, isNumeral_fixedDigits ?_, rfl⟩, t.isClockShown_clockChars,
    by simp only [tableChars, List.append_assoc, List.cons_append]⟩
  all_goals omega

end DateTime

/-! ## Weekdays in a text -/

/-- The names of the weekdays, Monday first. -/
def weekdayNames : List String :=
  ["Mon", "Tue", "Wed", "Thu", "Fri", "Sat", "Sun"]

/-- A text is the name of the weekday of a date. The days are counted from January 1, 2024, which
was a Monday. -/
def Date.IsNamed (date : Date) (text : List Char) : Prop :=
  weekdayNames[((date.number - Gregorian.dayNumber 2024 1 1) % 7).toNat]? =
    some (String.ofList text)

theorem Date.isNamed_abbreviation (date : Date) :
    date.IsNamed date.weekday.abbreviation.toList := by
  have hmonday : Gregorian.dayNumber 2024 1 1 = 739251 := by decide
  have hoffset : (date.number - 739251) % 7 = date.weekday.offset := by
    rw [weekday, Weekday.offset_ofOffset]
    omega
  rw [IsNamed, hmonday, hoffset, String.ofList_toList]
  cases date.weekday <;> rfl

namespace Command

/-! ## Rows -/

/-- A row shows an occurrence under a number: the number, the date with the clock reading, and the
weekday. In front of the number, and behind the clock reading where two blanks stand anyway, there
may be blanks that bring the rows into columns. -/
def IsRow (number : Nat) (t : DateTime) (row : List Char) : Prop :=
  ∃ (before behind : Nat) (date clock weekday : List Char),
    t.date.IsShown date ∧ t.IsClockShown clock ∧ t.date.IsNamed weekday ∧
      row = List.replicate before ' ' ++ '#' :: (Nat.toDigits 10 number ++ ' ' :: ' ' ::
        (date ++ ' ' :: (clock ++ ' ' :: ' ' :: (List.replicate behind ' ' ++ weekday))))

/-- Rows of the same text have the same number and show the same occurrence. -/
theorem IsRow.unique {number number' : Nat} {t u : DateTime} {row : List Char}
    (h : IsRow number t row) (h' : IsRow number' u row) :
    number = number' ∧ t.wholeSecond = u.wholeSecond := by
  obtain ⟨before, behind, date, clock, weekday, hdate, hclock, -, rfl⟩ := h
  obtain ⟨before', behind', date', clock', weekday', hdate', hclock', -, heq⟩ := h'
  have hblanks : ∀ count, '#' ∉ List.replicate count ' ' := fun count hmem =>
    absurd (List.eq_of_mem_replicate hmem) (by decide)
  have hdigits : ∀ value, ' ' ∉ Nat.toDigits 10 value := fun value hmem =>
    absurd (isDigit_of_mem_unsigned hmem) (by decide)
  obtain ⟨-, hrow⟩ := eq_of_append_cons (hblanks before) (hblanks before') heq
  obtain ⟨hnumber, hrest⟩ := eq_of_append_cons (hdigits number) (hdigits number') hrow
  obtain ⟨rfl, hbehind⟩ := eq_of_append_cons (hdate.notMem (by decide) (by decide))
    (hdate'.notMem (by decide) (by decide)) (List.tail_eq_of_cons_eq hrest)
  obtain ⟨rfl, -⟩ := eq_of_append_cons (hclock.notMem (by decide) (by decide))
    (hclock'.notMem (by decide) (by decide)) hbehind
  refine ⟨?_, hclock.unique hclock' (hdate.unique hdate')⟩
  have hvalue := congrArg (fun digits => Nat.ofDigitChars 10 digits 0) hnumber
  simpa only [Nat.ofDigitChars_ten_toDigits] using hvalue

theorem wholeSeconds_of_rows {rows : List (List Char)} {entries others : List (DateTime × Nat)}
    (h : List.Forall₂ (fun row entry => IsRow entry.2 entry.1 row) rows entries)
    (h' : List.Forall₂ (fun row entry => IsRow entry.2 entry.1 row) rows others) :
    entries.map (fun entry => entry.1.wholeSecond) =
      others.map fun entry => entry.1.wholeSecond := by
  induction h generalizing others with
  | nil =>
      cases h'
      rfl
  | cons hrow _ ih =>
      cases h' with
      | cons hrow' hrows' => rw [List.map_cons, List.map_cons, ih hrows', (hrow.unique hrow').2]

/-! ## The lines of a listing -/

theorem control_notMem {c : Char} (hc : c.toNat < 32) {text : List Char}
    (h : (text.all fun d => decide (32 ≤ d.toNat)) = true) : c ∉ text := fun hmem =>
  absurd (of_decide_eq_true (List.all_eq_true.1 h c hmem)) (Nat.not_le.2 hc)

theorem isDigit_of_control {c : Char} (hc : c.toNat < 32) : c.isDigit = false := by
  rw [Bool.eq_false_iff]
  intro hdigit
  have hlow : 48 ≤ c.toNat := (Char.isDigit_iff_toNat.1 hdigit).1
  omega

theorem control_notMem_unsigned {c : Char} (hc : c.toNat < 32) (value : Nat) :
    c ∉ unsigned value := fun h =>
  absurd (isDigit_of_mem_unsigned h) (by simp [isDigit_of_control hc])

/-- No cell holds a control character: no line ends in it, and no control sequence begins. -/
theorem control_notMem_cell {c : Char} (hc : c.toNat < 32) (entry : Nat × DateTime) :
    ∀ column ∈ occurrenceColumns, c ∉ column.cell entry := by
  have hmarks : c ∉ ['#', '-', ' ', ':'] := control_notMem hc (by decide)
  simp only [List.mem_cons, List.not_mem_nil, or_false, not_or] at hmarks
  have hweekday : ∀ weekday : Weekday, c ∉ weekday.abbreviation.toList := fun weekday =>
    control_notMem hc (by cases weekday <;> decide)
  obtain ⟨date, clock, hdate, hclock, hchars⟩ := entry.2.exists_tableChars_eq
  have hdateMem := hdate.notMem (isDigit_of_control hc) hmarks.2.1
  have hclockMem := hclock.notMem (isDigit_of_control hc) hmarks.2.2.2
  simp [occurrenceColumns, hchars, hmarks, control_notMem_unsigned hc, hdateMem, hclockMem,
    hweekday]

/-- Blanks behind a cell may as well stand behind those that separate it from the next one. -/
theorem replicate_append_separator (count : Nat) (text : List Char) :
    List.replicate count ' ' ++ ' ' :: ' ' :: text =
      ' ' :: ' ' :: (List.replicate count ' ' ++ text) := by
  have hmove : ∀ rest, List.replicate count ' ' ++ ' ' :: rest =
      ' ' :: (List.replicate count ' ' ++ rest) := by
    intro rest
    rw [List.append_cons, ← List.replicate_succ', List.replicate_succ, List.cons_append]
  rw [hmove, hmove]

theorem exists_row (number : Nat) (t : DateTime) (first second third : Nat) :
    ∃ row, Table.line false (number, t) (occurrenceColumns.zip [first, second, third]) =
        row ++ ['\n'] ∧ '\n' ∉ row ∧ IsRow number t row := by
  obtain ⟨date, clock, hdate, hclock, hchars⟩ := t.exists_tableChars_eq
  have hends := control_notMem_cell (show '\n'.toNat < 32 by decide) (number, t)
  simp only [occurrenceColumns, List.forall_mem_cons] at hends
  obtain ⟨hnumber, hdateTime, hweekday, -⟩ := hends
  refine ⟨Table.pad .right first ('#' :: unsigned number) ++ ' ' :: ' ' ::
    (Table.pad .left second t.tableChars ++ ' ' :: ' ' :: t.date.weekday.abbreviation.toList),
    ?_, ?_, ?_⟩
  · simp only [occurrenceColumns, List.zip_cons_cons, List.zip_nil_left, Table.line_cons_cons,
      Table.line_singleton, Table.paintCell_false, Table.lastField, List.append_assoc,
      List.cons_append]
  · simp [Table.lineEnd_notMem_pad hnumber, Table.lineEnd_notMem_pad hdateTime, hweekday]
  · refine ⟨first - ('#' :: unsigned number).length, second - t.tableChars.length, date, clock, _,
      hdate, hclock, t.date.isNamed_abbreviation, ?_⟩
    simp only [Table.pad, List.append_assoc, List.cons_append, replicate_append_separator]
    rw [hchars]
    simp only [List.append_assoc, List.cons_append]
    rfl

theorem exists_rows (entries : List (Nat × DateTime)) :
    ∃ rows, Table.render false occurrenceColumns entries = rows.flatMap (· ++ ['\n']) ∧
      (∀ row ∈ rows, '\n' ∉ row) ∧
      List.Forall₂ (fun entry row => IsRow entry.1 entry.2 row) entries rows := by
  -- The widths come from all rows together, so they stay fixed while the rows are taken one by one.
  obtain ⟨first, second, third, hcolumns⟩ : ∃ first second third,
      (occurrenceColumns.map fun column => (column, Table.width column entries)) =
        occurrenceColumns.zip [first, second, third] := ⟨_, _, _, rfl⟩
  rw [Table.render, hcolumns]
  exact exists_endedLines fun entry _ => exists_row entry.1 entry.2 first second third

end Command

end Recurrence
