import Mathlib.Algebra.Group.Nat.Defs
import Mathlib.Data.List.TakeWhile
import Recurrence.Proofs.Calendar
import Recurrence.Rule.WeekdayEntry
import Recurrence.Text.DateTime

/-!
# Texts that are read back

Numbers, date-times and weekday entries are written in one way and read in several.
For each of them the statement here is that what is written is read as what it was
written for, and for a part of a longer text also that reading stops where the part
ends, whatever follows.

A field of fixed width is read back by its width. All other parts end because what
follows cannot belong to them, and that is where the form of the texts comes in:
digits are followed by something that is no digit, a fraction of a second is the end
of the text, and the ordinal of a weekday entry is all but its last two letters.
-/

namespace Recurrence

namespace Text

/-! ## Numbers -/

theorem isDigit_of_mem_unsigned {value : Nat} {c : Char} (h : c ∈ unsigned value) :
    c.isDigit = true :=
  Nat.isDigit_of_mem_toDigits (by decide) (by decide) h

theorem unsigned_ne_nil (value : Nat) : unsigned value ≠ [] :=
  Nat.toDigits_ne_nil

/-- No number but zero begins with a zero. -/
theorem head?_unsigned {value : Nat} (h : (unsigned value).head? = some '0') : value = 0 := by
  induction value using Nat.strongRecOn with
  | _ value ih =>
    unfold unsigned at h ih
    by_cases hsmall : value < 10
    · rw [Nat.toDigits_of_lt_base hsmall, List.head?_cons, Option.some_inj] at h
      have hvalue := Nat.toNat_digitChar_sub_48_of_lt_ten hsmall
      rw [h] at hvalue
      exact hvalue.symm
    · have hhead : (Nat.toDigits 10 (value / 10)).head? = some '0' := by
        rw [Nat.toDigits_of_base_le (by decide) (by omega), List.head?_append] at h
        cases hdigits : Nat.toDigits 10 (value / 10) with
        | nil => exact absurd hdigits Nat.toDigits_ne_nil
        | cons c digits =>
            rw [hdigits] at h
            exact h
      have hzero := ih (value / 10) (by omega) hhead
      omega

/-- A text of digits has no sign. -/
theorem integer?_of_digits {text : List Char} (h : ∀ c ∈ text, c.isDigit = true) {value : Nat}
    (hvalue : natural? text = some value) : integer? text = some (value : Int) := by
  unfold integer?
  split
  next text =>
    have hplus := h '+' List.mem_cons_self
    exact absurd hplus (by decide)
  next text =>
    have hminus := h '-' List.mem_cons_self
    exact absurd hminus (by decide)
  next =>
    rw [hvalue]
    rfl

theorem integer?_signed (value : Int) : integer? (signed value) = some value := by
  have hnatural := natural?_unsigned value.natAbs
  unfold signed
  split
  next hneg =>
    rw [integer?, hnatural]
    show some (-(value.natAbs : Int)) = some value
    rw [Option.some_inj]
    omega
  next hpos =>
    rw [integer?_of_digits (fun c hc => isDigit_of_mem_unsigned hc) hnatural, Option.some_inj]
    omega

theorem isDigit_of_mem_fixedDigits {width value : Nat} {c : Char}
    (h : c ∈ fixedDigits width value) : c.isDigit = true := by
  induction width with
  | zero => cases h
  | succ width ih =>
      rcases List.mem_cons.1 h with rfl | h
      · exact isDigit_digit _
      · exact ih h

theorem length_fixedDigits (width value : Nat) : (fixedDigits width value).length = width := by
  induction width with
  | zero => rfl
  | succ width ih => rw [fixedDigits, List.length_cons, ih]

theorem ofDigitChars_fixedDigits (width value : Nat) :
    Nat.ofDigitChars 10 (fixedDigits width value) 0 = value % 10 ^ width := by
  induction width with
  | zero => simp [fixedDigits, Nat.mod_one]
  | succ width ih =>
      rw [fixedDigits, Nat.ofDigitChars_cons, Nat.ofDigitChars_eq_ofDigitChars_zero, ih,
        length_fixedDigits, Nat.mod_pow_succ, Nat.mul_zero, Nat.zero_add, Nat.add_comm]
      exact congrArg (fun d => value % 10 ^ width + 10 ^ width * d)
        (digitValue_digit (value / Nat.pow 10 width))

/-! ## Date-times -/

/-- The zeros at the end of a text are what its short form lacks. -/
theorem exists_append_zeros (digits : List Char) :
    ∃ zeros, digits =
      (digits.reverse.dropWhile (· = '0')).reverse ++ List.replicate zeros '0' := by
  refine ⟨(digits.reverse.takeWhile (· = '0')).length, ?_⟩
  have hzeros : digits.reverse.takeWhile (· = '0') =
      List.replicate (digits.reverse.takeWhile (· = '0')).length '0' :=
    List.eq_replicate_of_mem fun c hc => by
      have hzero := List.mem_takeWhile_imp hc
      exact of_decide_eq_true hzero
  rw [← List.reverse_replicate, ← hzeros, ← List.reverse_append,
    List.takeWhile_append_dropWhile, List.reverse_reverse]

theorem readFraction_fraction {nano : Nat} (h : nano < 1000000000) :
    readFraction (fraction nano) = some (nano, []) := by
  unfold fraction
  split
  next hzero =>
    rw [hzero]
    rfl
  next hnonzero =>
    obtain ⟨zeros, hsplit⟩ := exists_append_zeros (fixedDigits 9 nano)
    generalize ((fixedDigits 9 nano).reverse.dropWhile (· = '0')).reverse = digits at hsplit ⊢
    have hdigits : ∀ c ∈ digits, c.isDigit = true := by
      intro c hc
      have hmem : c ∈ fixedDigits 9 nano := by
        rw [hsplit]
        exact List.mem_append_left _ hc
      exact isDigit_of_mem_fixedDigits hmem
    have hlength : digits.length + zeros = 9 := by
      rw [← length_fixedDigits 9 nano, hsplit, List.length_append, List.length_replicate]
    have hvalue : Nat.ofDigitChars 10 digits 0 * 10 ^ zeros = nano := by
      have hfixed := ofDigitChars_fixedDigits 9 nano
      have hsmall : nano % 10 ^ 9 = nano := Nat.mod_eq_of_lt h
      rw [hsplit, Nat.ofDigitChars_append, Nat.ofDigitChars_replicate_zero, hsmall] at hfixed
      rw [Nat.mul_comm]
      exact hfixed
    have hne : digits ≠ [] := by
      rintro rfl
      rw [Nat.ofDigitChars_nil, Nat.zero_mul] at hvalue
      exact hnonzero hvalue.symm
    have hread : (digits.take 9).takeWhile Char.isDigit = digits := by
      rw [List.take_of_length_le (by omega), List.takeWhile_eq_self_iff]
      exact hdigits
    have hzeros : 9 - digits.length = zeros := by omega
    rw [readFraction, if_pos (Or.inl rfl)]
    simp only [hread, if_neg hne, List.drop_length, hzeros]
    rw [← hvalue]
    rfl

theorem readYear_yearChars {year : Int} (h : -9999 ≤ year ∧ year ≤ 9999) (rest : List Char) :
    readYear (Date.yearChars year ++ rest) = some (year, rest) := by
  unfold Date.yearChars
  split
  next hneg =>
    have hfits : year.natAbs % Nat.pow 10 6 = year.natAbs := Nat.mod_eq_of_lt (by
      show year.natAbs < 10 ^ 6
      omega)
    rw [List.cons_append, readYear, readFixed_fixedDigits, hfits]
    show (if year.natAbs = 0 then none else some (-(year.natAbs : Int), rest)) = _
    rw [if_neg (by omega), show -(year.natAbs : Int) = year by omega]
  next hpos =>
    have hfits : year.natAbs % Nat.pow 10 4 = year.natAbs := Nat.mod_eq_of_lt (by
      show year.natAbs < 10 ^ 4
      omega)
    have hsigned : ∀ sign text, sign :: text = fixedDigits 4 year.natAbs ++ rest →
        sign.isDigit = true := by
      intro sign text heq
      rw [fixedDigits, List.cons_append, List.cons.injEq] at heq
      rw [heq.1]
      exact isDigit_digit _
    unfold readYear
    split
    next text heq => exact absurd (hsigned '+' text heq.symm) (by decide)
    next text heq => exact absurd (hsigned '-' text heq.symm) (by decide)
    next =>
      rw [readFixed_fixedDigits, hfits]
      show some ((year.natAbs : Int), rest) = some (year, rest)
      rw [show (year.natAbs : Int) = year by omega]

theorem readPair_fixedDigits (mark : Char) {value : Nat} (h : value < 100) (rest : List Char) :
    readPair (some mark) (mark :: (fixedDigits 2 value ++ rest)) = some (value, rest) := by
  rw [readPair, if_pos rfl, readFixed_fixedDigits]
  exact congrArg (fun v => some (v, rest)) (Nat.mod_eq_of_lt h)

theorem readDate_chars (date : Date) (rest : List Char) :
    readDate (date.chars ++ rest) = some (date, rest) := by
  have hyear := Date.supportsYear_iff.1 date.supportsYear_year
  obtain ⟨hmonth, hmonth', hday, hday'⟩ := date.fields_valid
  have hlength := Gregorian.monthLength_bounds date.year date.month
  have hmonthNat : ((date.month.toNat : Nat) : Int) = date.month := by omega
  have hdayNat : ((date.day.toNat : Nat) : Int) = date.day := by omega
  simp only [Date.chars, List.append_assoc, List.cons_append, readDate, readYear_yearChars hyear,
    Option.bind_eq_bind, Option.bind_some, List.head?_cons, if_true,
    readPair_fixedDigits '-' (show date.month.toNat < 100 by omega),
    readPair_fixedDigits '-' (show date.day.toNat < 100 by omega), hmonthNat, hdayNat,
    Date.ofFields?_fields]
  rfl

theorem readClock_clockChars (t : DateTime) :
    readClock (t.clockChars ++ fraction t.nano) =
      some (⟨t.hour.toNat, t.minute.toNat, t.secondOfMinute.toNat, t.nano⟩, []) := by
  obtain ⟨hhour, hminute, hsecond⟩ := t.clock_bounds
  have hwhole : t.hour.toNat % Nat.pow 10 2 = t.hour.toNat := Nat.mod_eq_of_lt (by
    show t.hour.toNat < 10 ^ 2
    omega)
  simp only [DateTime.clockChars, List.append_assoc, List.cons_append, readClock,
    readFixed_fixedDigits, hwhole, Option.bind_eq_bind, Option.bind_some, List.head?_cons,
    if_true, continues, decide_true, readSecond,
    readPair_fixedDigits ':' (show t.minute.toNat < 100 by omega),
    readPair_fixedDigits ':' (show t.secondOfMinute.toNat < 100 by omega),
    readFraction_fraction t.nano_lt, if_neg (show ¬ t.secondOfMinute.toNat = 60 by omega)]
  rfl

end Text

open Text

/-- What stands between date and clock is not told apart. -/
theorem DateTime.ofChars?_append (t : DateTime) {mark : Char}
    (hmark : mark = 'T' ∨ mark = 't' ∨ mark = ' ') :
    ofChars? (t.date.chars ++ mark :: t.clockChars ++ fraction t.nano) = some t := by
  obtain ⟨hhour, hminute, hsecond⟩ := t.clock_bounds
  have hhourNat : ((t.hour.toNat : Nat) : Int) = t.hour := by omega
  have hminuteNat : ((t.minute.toNat : Nat) : Int) = t.minute := by omega
  have hsecondNat : ((t.secondOfMinute.toNat : Nat) : Int) = t.secondOfMinute := by omega
  simp only [ofChars?, List.append_assoc, List.cons_append, readDate_chars,
    Option.bind_eq_bind, Option.bind_some, if_pos hmark, if_true, readClock_clockChars, hhourNat,
    hminuteNat, hsecondNat, ofClock?_fields]

theorem DateTime.ofChars?_chars (t : DateTime) : ofChars? t.chars = some t :=
  t.ofChars?_append (Or.inl rfl)

theorem DateTime.ofText?_text (t : DateTime) : ofText? t.text = some t := by
  rw [ofText?, text, String.toList_ofList, ofChars?_chars]

/-! ## Weekday entries -/

namespace Text

theorem dropWhile_isBlank_append {before rest : List Char} (h : ∀ c ∈ before, isBlank c = true)
    (hne : rest ≠ []) (hhead : isBlank (rest.head hne) = false) :
    (before ++ rest).dropWhile isBlank = rest := by
  rw [List.dropWhile_append_of_pos h]
  cases rest with
  | nil => exact absurd rfl hne
  | cons c rest => exact List.dropWhile_cons_of_neg (Bool.eq_false_iff.1 hhead)

/-- Between blanks, what has no blank at either end is what is left of a text. -/
theorem trimBlanks_append {before body behind : List Char}
    (hbefore : ∀ c ∈ before, isBlank c = true) (hne : body ≠ [])
    (hhead : isBlank (body.head hne) = false) (hlast : isBlank (body.getLast hne) = false)
    (hbehind : ∀ c ∈ behind, isBlank c = true) :
    trimBlanks (before ++ body ++ behind) = body := by
  have hfront : (before ++ body ++ behind).dropWhile isBlank = body ++ behind := by
    rw [List.append_assoc]
    refine dropWhile_isBlank_append hbefore (List.append_ne_nil_of_left_ne_nil hne behind) ?_
    rw [List.head_append_of_ne_nil hne]
    exact hhead
  have hback : (body ++ behind).reverse.dropWhile isBlank = body.reverse := by
    have hne' : body.reverse ≠ [] := List.reverse_eq_nil_iff.not.2 hne
    rw [List.reverse_append]
    refine dropWhile_isBlank_append (fun c hc => hbehind c (List.mem_reverse.1 hc)) hne' ?_
    rw [List.head_reverse]
    exact hlast
  rw [trimBlanks, hfront, hback, List.reverse_reverse]

theorem trimBlanks_eq_self {text : List Char} (hne : text ≠ [])
    (hhead : isBlank (text.head hne) = false) (hlast : isBlank (text.getLast hne) = false) :
    trimBlanks text = text := by
  have hnone : ∀ c ∈ ([] : List Char), isBlank c = true := fun c hc => absurd hc List.not_mem_nil
  have htrim := trimBlanks_append hnone hne hhead hlast hnone
  rwa [List.nil_append, List.append_nil] at htrim

theorem isBlank_of_isDigit {c : Char} (h : c.isDigit = true) : isBlank c = false := by
  have hcode : 48 ≤ c.toNat ∧ c.toNat ≤ 57 := by
    simpa [Char.isDigit, UInt32.le_iff_toNat_le] using h
  simp only [isBlank, Bool.or_eq_false_iff, Bool.and_eq_false_iff, decide_eq_false_iff_not,
    beq_eq_false_iff_ne]
  omega

theorem isBlank_of_mem_signed {value : Int} {c : Char} (h : c ∈ signed value) :
    isBlank c = false := by
  unfold signed at h
  split at h
  next =>
    rcases List.mem_cons.1 h with rfl | h
    · decide
    · exact isBlank_of_isDigit (isDigit_of_mem_unsigned h)
  next => exact isBlank_of_isDigit (isDigit_of_mem_unsigned h)

theorem signed_ne_nil (value : Int) : signed value ≠ [] := by
  unfold signed
  split
  next => exact List.cons_ne_nil _ _
  next => exact unsigned_ne_nil _

end Text

/-- The code of a weekday is two capital letters. -/
theorem Weekday.exists_code (weekday : Weekday) : ∃ a b, weekday.code.toList = [a, b] ∧
    [a, b].map Char.toUpper = [a, b] ∧ isBlank a = false ∧ isBlank b = false := by
  cases weekday <;> exact ⟨_, _, rfl, by decide, by decide, by decide⟩

namespace WeekdayEntry

theorem readOrdinal_signed (ordinal : Int8) :
    readOrdinal (signed ordinal.toInt) = some (some ordinal) := by
  have hinteger := integer?_signed ordinal.toInt
  cases hdigits : signed ordinal.toInt with
  | nil => exact absurd hdigits (signed_ne_nil _)
  | cons c digits =>
      rw [hdigits] at hinteger
      rw [readOrdinal, hinteger, Option.bind_eq_bind, Option.bind_some, toInt8?_toInt]
      · rfl
      · intro h
        cases h

theorem ofChars?_chars (entry : WeekdayEntry) : ofChars? entry.chars = some entry := by
  obtain ⟨ordinal, weekday⟩ := entry
  obtain ⟨a, b, hcode, hupper, ha, hb⟩ := weekday.exists_code
  obtain ⟨digits, hchars, hread, hdigits⟩ : ∃ digits, chars ⟨ordinal, weekday⟩ = digits ++ [a, b] ∧
      readOrdinal digits = some ordinal ∧ ∀ c ∈ digits, isBlank c = false := by
    cases ordinal with
    | none => exact ⟨[], hcode, rfl, fun c hc => absurd hc List.not_mem_nil⟩
    | some n =>
        refine ⟨signed n.toInt, ?_, readOrdinal_signed n, fun c hc => isBlank_of_mem_signed hc⟩
        rw [chars, hcode]
  have hblank : ∀ c ∈ digits ++ [a, b], isBlank c = false := by
    intro c hc
    rcases List.mem_append.1 hc with hc | hc
    · exact hdigits c hc
    · rcases List.mem_pair.1 hc with rfl | rfl
      · exact ha
      · exact hb
  have htrim : trimBlanks (digits ++ [a, b]) = digits ++ [a, b] :=
    trimBlanks_eq_self (List.append_ne_nil_of_right_ne_nil digits (List.cons_ne_nil a [b]))
      (hblank _ (List.head_mem _)) (hblank _ (List.getLast_mem _))
  have hsplit : (digits ++ [a, b]).length - 2 = digits.length := by
    rw [List.length_append]
    rfl
  have hweekday : Weekday.ofCode? (String.ofList [a, b]) = some weekday := by
    rw [← hcode, String.ofList_toList, Weekday.ofCode?_code]
  simp only [ofChars?, hchars, htrim, hsplit, List.drop_left, List.take_left, hupper, hweekday,
    hread, Option.bind_eq_bind, Option.bind_some]
  rfl

theorem ofText?_text (entry : WeekdayEntry) : ofText? entry.text = some entry := by
  rw [ofText?, text, String.toList_ofList, ofChars?_chars]

end WeekdayEntry

end Recurrence
