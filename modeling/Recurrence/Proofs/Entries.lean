import Mathlib
import Recurrence.Proofs.Texts
import Recurrence.Rule.EntryBytes

/-!
# The grammar of weekday entries

Which texts are weekday entries is said here by the form of the text: blanks, perhaps an
integer that eight bits hold, the two letters of a weekday in capitals or not, and blanks
again. `Spells` is that form, and `parse_reads_grammar` says that reading accepts it and
nothing else, and that what is refused is given back as it came.

There are two ways to find the two letters, by characters and by bytes, and they agree.
Where they would cut a text in different places, one of its last two characters is
longer than a byte and so no letter of a weekday. That is why both are measured against
the grammar, and not against each other.
-/

namespace Recurrence

namespace Text

/-! ## Numbers -/

/-- The ways to write an integer: digits, with a sign in front or without. -/
inductive SpellsInteger : List Char → Int → Prop
  | unsigned {digits : List Char} (hne : digits ≠ []) (hdigits : ∀ c ∈ digits, c.isDigit = true) :
      SpellsInteger digits (Nat.ofDigitChars 10 digits 0)
  | plus {digits : List Char} (hne : digits ≠ []) (hdigits : ∀ c ∈ digits, c.isDigit = true) :
      SpellsInteger ('+' :: digits) (Nat.ofDigitChars 10 digits 0)
  | minus {digits : List Char} (hne : digits ≠ []) (hdigits : ∀ c ∈ digits, c.isDigit = true) :
      SpellsInteger ('-' :: digits) (-(Nat.ofDigitChars 10 digits 0 : Int))

theorem natural?_of_digits {text : List Char} (hne : text ≠ [])
    (hdigits : ∀ c ∈ text, c.isDigit = true) :
    natural? text = some (Nat.ofDigitChars 10 text 0) :=
  if_pos ⟨hne, List.all_eq_true.2 hdigits⟩

theorem natural?_cases (text : List Char) :
    natural? text = none ∨ text ≠ [] ∧ (∀ c ∈ text, c.isDigit = true) ∧
      natural? text = some (Nat.ofDigitChars 10 text 0) := by
  by_cases h : text ≠ [] ∧ text.all Char.isDigit = true
  · have hdigits := List.all_eq_true.1 h.2
    exact Or.inr ⟨h.1, hdigits, natural?_of_digits h.1 hdigits⟩
  · exact Or.inl (if_neg h)

theorem integer?_eq_some_iff {text : List Char} {value : Int} :
    integer? text = some value ↔ SpellsInteger text value := by
  constructor
  · intro h
    unfold integer? at h
    split at h
    next digits =>
      rcases natural?_cases digits with hnone | ⟨hne, hdigits, hsome⟩
      · rw [hnone] at h
        cases h
      · rw [hsome] at h
        cases h
        exact .plus hne hdigits
    next digits =>
      rcases natural?_cases digits with hnone | ⟨hne, hdigits, hsome⟩
      · rw [hnone] at h
        cases h
      · rw [hsome] at h
        cases h
        exact .minus hne hdigits
    next =>
      rcases natural?_cases text with hnone | ⟨hne, hdigits, hsome⟩
      · rw [hnone] at h
        cases h
      · rw [hsome] at h
        cases h
        exact .unsigned hne hdigits
  · intro h
    cases h with
    | unsigned hne hdigits =>
        exact integer?_of_digits hdigits (natural?_of_digits hne hdigits)
    | plus hne hdigits | minus hne hdigits =>
        rw [integer?, natural?_of_digits hne hdigits]
        rfl

theorem isBlank_of_spellsInteger {text : List Char} {value : Int} (h : SpellsInteger text value) :
    ∀ c ∈ text, isBlank c = false := by
  cases h with
  | unsigned hne hdigits => exact fun c hc => isBlank_of_isDigit (hdigits c hc)
  | plus hne hdigits | minus hne hdigits =>
      intro c hc
      rcases List.mem_cons.1 hc with rfl | hc
      · decide
      · exact isBlank_of_isDigit (hdigits c hc)

theorem ne_nil_of_spellsInteger {text : List Char} {value : Int} (h : SpellsInteger text value) :
    text ≠ [] := by
  cases h with
  | unsigned hne => exact hne
  | plus | minus => exact List.cons_ne_nil _ _

/-! ## Blanks -/

theorem exists_trimBlanks (text : List Char) :
    ∃ before behind, text = before ++ trimBlanks text ++ behind ∧
      (∀ c ∈ before, isBlank c = true) ∧ ∀ c ∈ behind, isBlank c = true := by
  refine ⟨text.takeWhile isBlank, ((text.dropWhile isBlank).reverse.takeWhile isBlank).reverse,
    ?_, fun c hc => List.mem_takeWhile_imp hc,
    fun c hc => List.mem_takeWhile_imp (List.mem_reverse.1 hc)⟩
  rw [trimBlanks, List.append_assoc, ← List.reverse_append, List.takeWhile_append_dropWhile,
    List.reverse_reverse, List.takeWhile_append_dropWhile]

/-! ## Letters -/

theorem toUpper_eq_iff {c letter : Char} (h : letter.isUpper = true) :
    c.toUpper = letter ↔ c = letter ∨ c = letter.toLower := by
  have hcapital : letter.toUpper = letter :=
    Char.toUpper_eq_of_not_isLower (Char.not_isLower_of_isUpper h)
  constructor
  · rintro rfl
    by_cases hsmall : c.isLower = true
    · right
      rw [Char.toLower_toUpper_eq_toLower,
        Char.toLower_eq_of_not_isUpper (Char.not_isUpper_of_isLower hsmall)]
    · exact Or.inl (Char.toUpper_eq_of_not_isLower hsmall).symm
  · rintro (rfl | rfl)
    · exact hcapital
    · rw [Char.toUpper_toLower_eq_toUpper, hcapital]

theorem isAlpha_of_spelled {c letter : Char} (h : letter.isUpper = true)
    (hc : c = letter ∨ c = letter.toLower) : c.isAlpha = true := by
  have hletter : letter.isAlpha = true := by
    rw [Char.isAlpha, h, Bool.true_or]
  rcases hc with rfl | rfl
  · exact hletter
  · rw [Char.isAlpha_toLower_eq_isAlpha, hletter]

/-- A letter is stored in one byte, and it is no blank. -/
theorem plain_of_isAlpha {c : Char} (h : c.isAlpha = true) :
    c.utf8Size = 1 ∧ isBlank c = false := by
  have hcode : 65 ≤ c.toNat ∧ c.toNat ≤ 122 := by
    simp [Char.isAlpha, Char.isUpper, Char.isLower, UInt32.le_iff_toNat_le] at h
    omega
  refine ⟨?_, ?_⟩
  · rw [Char.utf8Size_eq_one_iff, UInt32.le_iff_toNat_le]
    show c.toNat ≤ 127
    omega
  · simp only [isBlank, Bool.or_eq_false_iff, Bool.and_eq_false_iff, decide_eq_false_iff_not,
      beq_eq_false_iff_ne]
    omega

theorem map_toUpper_eq_iff {text letters : List Char} (h : ∀ c ∈ letters, c.isUpper = true) :
    text.map Char.toUpper = letters ↔
      List.Forall₂ (fun c letter => c = letter ∨ c = letter.toLower) text letters := by
  induction letters generalizing text with
  | nil => rw [List.map_eq_nil_iff, List.forall₂_nil_right_iff]
  | cons letter letters ih =>
      obtain ⟨hletter, hletters⟩ := List.forall_mem_cons.1 h
      cases text with
      | nil => simp
      | cons c text =>
          rw [List.map_cons, List.cons_eq_cons, List.forall₂_cons, toUpper_eq_iff hletter,
            ih hletters]

end Text

open Text

/-! ## Weekdays -/

namespace Weekday

/-- The ways to write the code of a weekday: each of its letters as a capital or a small one. -/
def SpellsCode (weekday : Weekday) (text : List Char) : Prop :=
  List.Forall₂ (fun c letter => c = letter ∨ c = letter.toLower) text weekday.code.toList

variable {weekday : Weekday} {text : List Char}

theorem ofCode?_eq_some_iff {text : String} : ofCode? text = some weekday ↔ text = weekday.code := by
  constructor
  · intro h
    have hfound := List.find?_some h
    exact (of_decide_eq_true hfound).symm
  · rintro rfl
    exact ofCode?_code weekday

theorem exists_capitals (weekday : Weekday) :
    ∃ a b, weekday.code.toList = [a, b] ∧ a.isUpper = true ∧ b.isUpper = true := by
  cases weekday <;> exact ⟨_, _, rfl, by decide, by decide⟩

theorem ofCode?_toUpper_iff :
    ofCode? (String.ofList (text.map Char.toUpper)) = some weekday ↔ weekday.SpellsCode text := by
  obtain ⟨a, b, hcode, ha, hb⟩ := weekday.exists_capitals
  have hcapitals : ∀ c ∈ weekday.code.toList, c.isUpper = true := by
    simp [hcode, ha, hb]
  rw [SpellsCode, ← map_toUpper_eq_iff hcapitals, ofCode?_eq_some_iff, ← String.toList_inj,
    String.toList_ofList]

/-- A code is two letters, and stored in two bytes. -/
theorem SpellsCode.two_letters (h : weekday.SpellsCode text) :
    text.length = 2 ∧ byteLength text = 2 ∧ ∀ c ∈ text, isBlank c = false := by
  obtain ⟨a, b, hcode, ha, hb⟩ := weekday.exists_capitals
  rw [SpellsCode, hcode] at h
  cases h with
  | cons hfirst h =>
      cases h with
      | cons hsecond h =>
          cases h with
          | nil =>
              obtain ⟨hsize, hblank⟩ := plain_of_isAlpha (isAlpha_of_spelled ha hfirst)
              obtain ⟨hsize', hblank'⟩ := plain_of_isAlpha (isAlpha_of_spelled hb hsecond)
              refine ⟨rfl, ?_, by simp [hblank, hblank']⟩
              simp only [byteLength, hsize, hsize']

end Weekday

theorem toInt8?_eq_some_iff {value : Int} {n : Int8} : toInt8? value = some n ↔ value = n.toInt := by
  constructor
  · intro h
    unfold toInt8? at h
    split at h
    next hfits =>
      cases h
      exact (Int8.toInt_ofInt_of_le hfits.1 (Int.lt_add_one_of_le hfits.2)).symm
    next => cases h
  · rintro rfl
    exact toInt8?_toInt n

namespace WeekdayEntry

/-! ## Entries -/

/-- What may stand in front of the code: nothing, or an integer that eight bits hold. -/
inductive SpellsOrdinal : List Char → Option Int8 → Prop
  | none : SpellsOrdinal [] none
  | some {text : List Char} {ordinal : Int8} (h : SpellsInteger text ordinal.toInt) :
      SpellsOrdinal text (some ordinal)

theorem SpellsOrdinal.not_blank {text : List Char} {ordinal : Option Int8}
    (h : SpellsOrdinal text ordinal) : ∀ c ∈ text, isBlank c = false := by
  cases h with
  | none => exact fun c hc => absurd hc List.not_mem_nil
  | some h => exact isBlank_of_spellsInteger h

/-- The texts of an entry: the ordinal and the code, with blanks around the two. -/
inductive Spells : List Char → WeekdayEntry → Prop
  | intro {before digits code behind : List Char} {entry : WeekdayEntry}
      (hbefore : ∀ c ∈ before, isBlank c = true) (hdigits : SpellsOrdinal digits entry.ordinal)
      (hcode : entry.weekday.SpellsCode code) (hbehind : ∀ c ∈ behind, isBlank c = true) :
      Spells (before ++ (digits ++ code) ++ behind) entry

/-- An ordinal and a code, without anything around them. -/
def Spelled (body : List Char) (entry : WeekdayEntry) : Prop :=
  ∃ digits code, body = digits ++ code ∧ SpellsOrdinal digits entry.ordinal ∧
    entry.weekday.SpellsCode code

theorem spells_iff {text : List Char} {entry : WeekdayEntry} :
    Spells text entry ↔ Spelled (trimBlanks text) entry := by
  constructor
  · intro h
    obtain @⟨before, digits, code, behind, _, hbefore, hdigits, hcode, hbehind⟩ := h
    obtain ⟨hlength, -, hletters⟩ := hcode.two_letters
    have hnumber := hdigits.not_blank
    have hne : digits ++ code ≠ [] := List.append_ne_nil_of_right_ne_nil digits (by
      rintro rfl
      cases hlength)
    have hbody : ∀ c ∈ digits ++ code, isBlank c = false := by
      intro c hc
      rcases List.mem_append.1 hc with hc | hc
      · exact hnumber c hc
      · exact hletters c hc
    rw [trimBlanks_append hbefore hne (hbody _ (List.head_mem hne)) (hbody _ (List.getLast_mem hne))
      hbehind]
    exact ⟨digits, code, rfl, hdigits, hcode⟩
  · rintro ⟨digits, code, hbody, hdigits, hcode⟩
    obtain ⟨before, behind, htext, hbefore, hbehind⟩ := exists_trimBlanks text
    rw [htext, hbody]
    exact .intro hbefore hdigits hcode hbehind

theorem readOrdinal_eq_some_iff {text : List Char} {ordinal : Option Int8} :
    readOrdinal text = some ordinal ↔ SpellsOrdinal text ordinal := by
  constructor
  · intro h
    cases text with
    | nil =>
        cases h
        exact .none
    | cons c text =>
        obtain ⟨value, hvalue, h⟩ := Option.bind_eq_some_iff.1 h
        obtain ⟨n, hn, h⟩ := Option.bind_eq_some_iff.1 h
        cases h
        rw [toInt8?_eq_some_iff] at hn
        rw [hn] at hvalue
        exact .some (integer?_eq_some_iff.1 hvalue)
  · intro h
    cases h with
    | none => rfl
    | some h =>
        have hne : text = [] → False := fun hnil => ne_nil_of_spellsInteger h hnil
        rw [readOrdinal, integer?_eq_some_iff.2 h, Option.bind_eq_bind, Option.bind_some,
          toInt8?_toInt]
        · rfl
        · exact hne

theorem ofChars?_eq_some_iff {text : List Char} {entry : WeekdayEntry} :
    ofChars? text = some entry ↔ Spelled (trimBlanks text) entry := by
  constructor
  · intro h
    obtain ⟨weekday, hweekday, h⟩ := Option.bind_eq_some_iff.1 h
    obtain ⟨ordinal, hordinal, h⟩ := Option.bind_eq_some_iff.1 h
    cases h
    exact ⟨_, _, (List.take_append_drop _ _).symm, readOrdinal_eq_some_iff.1 hordinal,
      Weekday.ofCode?_toUpper_iff.1 hweekday⟩
  · rintro ⟨digits, code, hbody, hdigits, hcode⟩
    have hsplit : (digits ++ code).length - 2 = digits.length := by
      rw [List.length_append, hcode.two_letters.1]
      rfl
    simp only [ofChars?, hbody, hsplit, List.drop_left, List.take_left,
      Weekday.ofCode?_toUpper_iff.2 hcode, readOrdinal_eq_some_iff.2 hdigits,
      Option.bind_eq_bind, Option.bind_some]
    rfl

theorem parse_eq_ok_iff {text : String} {entry : WeekdayEntry} :
    parse text = .ok entry ↔ Spelled (trimBlanks text.toList) entry := by
  constructor
  · intro h
    simp only [parse] at h
    split at h
    · cases h
    · split at h
      · cases h
      next digits code hcut =>
        split at h
        · cases h
        next weekday hweekday =>
          split at h
          · cases h
          next ordinal hordinal =>
            cases h
            exact ⟨digits, code, (cutAt_eq_some_iff.1 hcut).1,
              readOrdinal_eq_some_iff.1 hordinal, Weekday.ofCode?_toUpper_iff.1 hweekday⟩
  · rintro ⟨digits, code, hbody, hdigits, hcode⟩
    obtain ⟨-, hbytes, -⟩ := hcode.two_letters
    have hlength := byteLength_append digits code
    have hcut : cutAt (byteLength (digits ++ code) - 2) (digits ++ code) = some (digits, code) :=
      cutAt_eq_some_iff.2 ⟨rfl, by omega⟩
    simp only [parse, hbody, hcut, Weekday.ofCode?_toUpper_iff.2 hcode,
      readOrdinal_eq_some_iff.2 hdigits]
    exact if_neg (by omega)

theorem eq_invalidWeekday_of_parse {text : String} {error : RuleError}
    (h : parse text = .error error) : error = .invalidWeekday text := by
  simp only [parse] at h
  repeat' split at h
  all_goals cases h
  all_goals rfl

theorem toOption_parse (text : String) : (parse text).toOption = ofText? text := by
  refine Option.ext fun entry => ?_
  rw [ofText?, ofChars?_eq_some_iff, ← parse_eq_ok_iff]
  cases parse text with
  | error error => simp [Except.toOption]
  | ok found => simp [Except.toOption]

/-- A text is read as an entry exactly if it spells that entry, and otherwise refused as it came,
wherever its bytes would have to be cut; reading by characters finds the same. What an entry is
written as is read as the entry, whichever ordinal of eight bits it has. -/
theorem parse_reads_grammar :
    (∀ (text : String) (entry : WeekdayEntry),
      parse text = .ok entry ↔ Spells text.toList entry) ∧
    (∀ (text : String) (error : RuleError), parse text = .error error ↔
      error = .invalidWeekday text ∧ ∀ entry, ¬ Spells text.toList entry) ∧
    (∀ text : String, ofText? text = (parse text).toOption) ∧
    ∀ entry : WeekdayEntry, parse entry.text = .ok entry ∧ Spells entry.text.toList entry := by
  have hok : ∀ (text : String) (entry : WeekdayEntry),
      parse text = .ok entry ↔ Spells text.toList entry := fun text entry => by
    rw [parse_eq_ok_iff, spells_iff]
  refine ⟨hok, fun text error => ?_, fun text => (toOption_parse text).symm, fun entry => ?_⟩
  · constructor
    · intro h
      refine ⟨eq_invalidWeekday_of_parse h, fun entry hspells => ?_⟩
      rw [(hok text entry).2 hspells] at h
      cases h
    · rintro ⟨rfl, hnone⟩
      cases h : parse text with
      | error error => rw [eq_invalidWeekday_of_parse h]
      | ok entry => exact absurd ((hok text entry).1 h) (hnone entry)
  · have hspells : Spells entry.text.toList entry := by
      rw [spells_iff, ← ofChars?_eq_some_iff]
      exact ofText?_text entry
    exact ⟨(hok entry.text entry).2 hspells, hspells⟩

/-- The sign may be a plus, and zeros may stand in front. -/
example : parse " +053su\t" = .ok ⟨some 53, .sunday⟩ := by decide

/-- The last two bytes are one letter that is none of a code. -/
example : parse "1é" = .error (.invalidWeekday "1é") := by decide

end WeekdayEntry

end Recurrence
