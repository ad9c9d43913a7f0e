import Recurrence.Document.Json.Printer
import Recurrence.Document.Json.Reader
import Recurrence.Proofs.Texts

/-!
# JSON that is read back

Both layouts of a value are texts of one grammar, `Spells`, in which blanks may stand
between any two pieces. The reader takes every text of the grammar for the value that
it spells (`reads_of_spells`), and so a value is read back from either layout.

The grammar covers the values that documents of this library are made of, the `Plain`
ones: strings, whole numbers, lists and tables. Of a number the reader only finds the
end by what follows it, so what may follow a value, `Ends`, is part of the statement;
and the depth that the reader is given is enough because every level of a value has
characters of its own.
-/

namespace Recurrence.Json

open Text

/-! ## Strings -/

theorem hexCode?_hexDigits {code : Nat} (h : code < 65536) :
    ∃ a b c d, hexDigits code = [a, b, c, d] ∧ hexCode? a b c d = some code := by
  have hdigit : ∀ n < 16, hexValue? (hexDigit n) = some n := by decide
  refine ⟨_, _, _, _, rfl, ?_⟩
  simp only [hexCode?, hdigit _ (Nat.mod_lt _ (by decide : 0 < 16)), Option.bind_eq_bind,
    Option.bind_some]
  show some _ = some code
  rw [Option.some_inj]
  omega

theorem readCodes_shortEscape {e : Char} {code : Nat} (he : e ≠ 'u')
    (h : shortEscape? e = some code)
    (text : List Char) : readCodes ('\\' :: e :: text) =
      (readCodes text).map fun (codes, rest) => (code :: codes, rest) := by
  rw [readCodes, h]
  · cases readCodes text <;> rfl
  · intro a b c d text' hu
    exact absurd hu he

theorem readCodes_hexEscape {code : Nat} (h : code < 65536) (text : List Char) :
    readCodes ('\\' :: 'u' :: (hexDigits code ++ text)) =
      (readCodes text).map fun (codes, rest) => (code :: codes, rest) := by
  obtain ⟨a, b, c, d, hdigits, hcode⟩ := hexCode?_hexDigits h
  rw [hdigits, List.cons_append, List.cons_append, List.cons_append, List.cons_append,
    List.nil_append, readCodes, hcode]
  cases readCodes text <;> rfl

theorem readCodes_plain {c : Char} (hquote : c ≠ '"') (hback : c ≠ '\\') (h : ¬ c.toNat < 32)
    (text : List Char) : readCodes (c :: text) =
      (readCodes text).map fun (codes, rest) => (c.toNat :: codes, rest) := by
  rw [readCodes, if_neg (by simp [h, hback])]
  · cases readCodes text <;> rfl
  · intro hc
    exact absurd hc hquote
  · intro a b c' d text' hc
    exact absurd hc hback
  · intro c' text' hc
    exact absurd hc hback

theorem readCodes_escape (c : Char) (text : List Char) :
    readCodes (escape c ++ text) =
      (readCodes text).map fun (codes, rest) => (c.toNat :: codes, rest) := by
  unfold escape
  split
  next h => rw [h]; exact readCodes_shortEscape (by decide) rfl text
  split
  next h => rw [h]; exact readCodes_shortEscape (by decide) rfl text
  split
  next h => rw [h]; exact readCodes_shortEscape (by decide) rfl text
  split
  next h => rw [h]; exact readCodes_shortEscape (by decide) rfl text
  split
  next h => rw [h]; exact readCodes_shortEscape (by decide) rfl text
  split
  next h => rw [h]; exact readCodes_shortEscape (by decide) rfl text
  split
  next h => rw [h]; exact readCodes_shortEscape (by decide) rfl text
  split
  next h => exact readCodes_hexEscape (by omega) text
  next hquote hback _ _ _ _ _ h => exact readCodes_plain hquote hback h text

theorem joinPairs_cons (c : Char) (codes : List Nat) :
    joinPairs (c.toNat :: codes) = (joinPairs codes).map (c :: ·) := by
  have hvalid : c.toNat < 0xD800 ∨ 0xDFFF < c.toNat := by
    rcases c.valid with h | h
    · exact Or.inl h
    · exact Or.inr h.1
  have hhigh : isHighHalf c.toNat = false := by
    simp only [isHighHalf, Bool.and_eq_false_iff, decide_eq_false_iff_not]
    omega
  have hlow : isLowHalf c.toNat = false := by
    simp only [isLowHalf, Bool.and_eq_false_iff, decide_eq_false_iff_not]
    omega
  cases codes with
  | nil => simp [joinPairs, hhigh, hlow, Char.ofNat_toNat]
  | cons low codes => simp [joinPairs, hhigh, hlow, Char.ofNat_toNat]

theorem joinPairs_map_toNat (content : List Char) :
    joinPairs (content.map Char.toNat) = some content := by
  induction content with
  | nil => rfl
  | cons c content ih => rw [List.map_cons, joinPairs_cons, ih, Option.map_some]

theorem quote_some (content : String) :
    quote (some content) = '"' :: (content.toList.flatMap escape ++ ['"']) :=
  rfl

theorem readString_quote (content : String) (rest : List Char) :
    ∃ text, quote (some content) ++ rest = '"' :: text ∧
      readString text = some (some content, rest) := by
  refine ⟨content.toList.flatMap escape ++ '"' :: rest, ?_, ?_⟩
  · rw [quote_some, List.cons_append, List.append_assoc, List.singleton_append]
  · have hcodes : ∀ chars : List Char, readCodes (chars.flatMap escape ++ '"' :: rest) =
        some (chars.map Char.toNat, rest) := by
      intro chars
      induction chars with
      | nil => rfl
      | cons c chars ih =>
          rw [List.flatMap_cons, List.append_assoc, readCodes_escape, ih]
          rfl
    rw [readString, hcodes, Option.bind_eq_bind, Option.bind_some]
    simp only [joinPairs_map_toNat, Option.map_some, String.ofList_toList]
    rfl

/-! ## Numbers -/

/-- What follows does not continue a number. -/
def Ends (rest : List Char) : Prop :=
  ∀ c ∈ rest.head?, c.isDigit = false ∧ c ≠ '.' ∧ c ≠ 'e' ∧ c ≠ 'E'

theorem readDigits_append {digits rest : List Char} (hne : digits ≠ [])
    (hdigits : ∀ c ∈ digits, c.isDigit = true) (hends : Ends rest) :
    readDigits (digits ++ rest) = some (digits, rest) := by
  have hstop : rest.takeWhile Char.isDigit = [] ∧ rest.dropWhile Char.isDigit = rest := by
    cases rest with
    | nil => exact ⟨rfl, rfl⟩
    | cons c rest =>
        have hc := (hends c rfl).1
        rw [List.takeWhile_cons, List.dropWhile_cons, hc]
        exact ⟨rfl, rfl⟩
  rw [readDigits, List.takeWhile_append_of_pos hdigits, List.dropWhile_append_of_pos hdigits,
    hstop.1, hstop.2, List.append_nil]
  cases digits with
  | nil => exact absurd rfl hne
  | cons c digits => rfl

theorem readFractionPart_of_ends {rest : List Char} (hends : Ends rest) :
    readFractionPart rest = some ([], rest) := by
  unfold readFractionPart
  split
  next text => exact absurd rfl (hends '.' rfl).2.1
  next => rfl

theorem readExponentPart_of_ends {rest : List Char} (hends : Ends rest) :
    readExponentPart rest = some ([], rest) := by
  cases rest with
  | nil => rfl
  | cons c rest =>
      obtain ⟨-, -, he, hE⟩ := hends c rfl
      rw [readExponentPart.eq_def]
      exact if_neg (not_or.2 ⟨he, hE⟩)

theorem readMagnitude_unsigned {negative : Bool} {value : Nat} {rest : List Char}
    (hzero : negative = true → value ≠ 0) (hends : Ends rest) :
    readMagnitude negative (unsigned value ++ rest) =
      some (.integer (if negative then -(value : Int) else value), rest) := by
  have hleading : ¬ ((unsigned value).head? = some '0' ∧ (unsigned value).length ≠ 1) := by
    rintro ⟨hhead, hlength⟩
    rw [head?_unsigned hhead] at hlength
    exact hlength rfl
  have hminus : ¬ (negative = true ∧ unsigned value = ['0']) := by
    rintro ⟨hnegative, hdigits⟩
    refine hzero hnegative (head?_unsigned ?_)
    rw [hdigits, List.head?_cons]
  have hvalue : Nat.ofDigitChars 10 (unsigned value) 0 = value := Nat.ofDigitChars_ten_toDigits
  rw [readMagnitude, readDigits_append (unsigned_ne_nil value)
    (fun c hc => isDigit_of_mem_unsigned hc) hends]
  simp only [Option.bind_eq_bind, Option.bind_some, if_neg hleading,
    readFractionPart_of_ends hends, readExponentPart_of_ends hends, hvalue]
  rw [if_pos ⟨trivial, trivial, hminus⟩]
  rfl

/-! ## The grammar -/

/-- A text that may stand between two pieces of a value. -/
def Blanks (text : List Char) : Prop :=
  ∀ c ∈ text, c = ' ' ∨ c = '\n' ∨ c = '\t' ∨ c = '\r'

theorem skipBlanks_append {blanks : List Char} (h : Blanks blanks) (text : List Char) :
    skipBlanks (blanks ++ text) = skipBlanks text := by
  induction blanks with
  | nil => rfl
  | cons c blanks ih =>
      rw [List.cons_append, skipBlanks, if_pos (h c List.mem_cons_self)]
      exact ih fun d hd => h d (List.mem_cons_of_mem c hd)

theorem skipBlanks_skipBlanks (text : List Char) :
    skipBlanks (skipBlanks text) = skipBlanks text := by
  induction text with
  | nil => rfl
  | cons c text ih =>
      rw [skipBlanks]
      split
      next => exact ih
      next h => rw [skipBlanks, if_neg h]

theorem ne_of_isDigit {c d : Char} (hc : c.isDigit = true) (hd : d.isDigit = false) : c ≠ d := by
  rintro rfl
  rw [hc] at hd
  cases hd

theorem exists_unsigned_eq_cons (value : Nat) :
    ∃ c digits, unsigned value = c :: digits ∧ c.isDigit = true := by
  cases hdigits : unsigned value with
  | nil => exact absurd hdigits (unsigned_ne_nil value)
  | cons c digits =>
      have hmem : c ∈ unsigned value := by
        rw [hdigits]
        exact List.mem_cons_self
      exact ⟨c, digits, rfl, isDigit_of_mem_unsigned hmem⟩

theorem skipBlanks_of_isDigit {c : Char} (h : c.isDigit = true) (text : List Char) :
    skipBlanks (c :: text) = c :: text := by
  rw [skipBlanks, if_neg]
  rintro (hc | hc | hc | hc) <;> exact absurd hc (ne_of_isDigit h rfl)

/-- A part of a document: a value, the items of a list or the entries of a table. -/
inductive Part where
  | value (value : Value)
  | items (items : List Value)
  | entries (entries : List (Quoted × Value))

/-- The texts of a part. Lists and tables have their items and entries between brackets, there is
a comma behind each but the last, and blanks may stand around every one. -/
inductive Spells : Part → List Char → Prop where
  | string (content : String) : Spells (.value (.string content)) (quote (some content))
  | integer (value : Int) : Spells (.value (.integer value)) (signed value)
  | emptyList {gap : List Char} : Blanks gap → Spells (.value (.list [])) ('[' :: (gap ++ [']']))
  | list {items : List Value} {text : List Char} : Spells (.items items) text →
      Spells (.value (.list items)) ('[' :: (text ++ [']']))
  | emptyTable {gap : List Char} : Blanks gap →
      Spells (.value (.table [])) ('\x7b' :: (gap ++ ['\x7d']))
  | table {entries : List (Quoted × Value)} {text : List Char} : Spells (.entries entries) text →
      Spells (.value (.table entries)) ('\x7b' :: (text ++ ['\x7d']))
  | lastItem {item : Value} {before text after : List Char} : Blanks before → Blanks after →
      Spells (.value item) text → Spells (.items [item]) (before ++ (text ++ after))
  | item {item : Value} {items : List Value} {before text after others : List Char} :
      Blanks before → Blanks after → Spells (.value item) text → Spells (.items items) others →
      Spells (.items (item :: items)) (before ++ (text ++ (after ++ ',' :: others)))
  | lastEntry (key : String) {value : Value} {before gap between text after : List Char} :
      Blanks before → Blanks gap → Blanks between → Blanks after → Spells (.value value) text →
      Spells (.entries [(some key, value)])
        (before ++ (quote (some key) ++ (gap ++ ':' :: (between ++ (text ++ after)))))
  | entry (key : String) {value : Value} {entries : List (Quoted × Value)}
      {before gap between text after others : List Char} :
      Blanks before → Blanks gap → Blanks between → Blanks after → Spells (.value value) text →
      Spells (.entries entries) others → Spells (.entries ((some key, value) :: entries))
        (before ++ (quote (some key) ++ (gap ++ ':' :: (between ++ (text ++
          (after ++ ',' :: others))))))

/-! ## The reader -/

theorem ends_nil : Ends [] := by
  intro c hc
  cases hc

theorem ends_append {blanks rest : List Char} (h : Blanks blanks) (hends : Ends rest) :
    Ends (blanks ++ rest) := by
  cases blanks with
  | nil => exact hends
  | cons c blanks =>
      intro d hd
      rw [List.cons_append, List.head?_cons, Option.mem_some_iff] at hd
      subst hd
      rcases h c List.mem_cons_self with rfl | rfl | rfl | rfl <;> decide

theorem ends_cons {c : Char} (h : c = ',' ∨ c = ']' ∨ c = '\x7d') (rest : List Char) :
    Ends (c :: rest) := by
  intro d hd
  rw [List.head?_cons, Option.mem_some_iff] at hd
  subst hd
  rcases h with rfl | rfl | rfl <;> decide

/-- The texts of a part begin, behind blanks, with something that closes nothing. -/
theorem exists_skipBlanks {part : Part} {text : List Char} (h : Spells part text)
    (rest : List Char) :
    ∃ c tail, skipBlanks (text ++ rest) = c :: tail ∧ c ≠ ']' ∧ c ≠ '\x7d' := by
  induction h generalizing rest with
  | string content => exact ⟨'"', _, rfl, by decide, by decide⟩
  | integer value =>
      unfold signed
      split
      next => exact ⟨'-', _, rfl, by decide, by decide⟩
      next =>
        obtain ⟨c, digits, hdigits, hc⟩ := exists_unsigned_eq_cons value.natAbs
        rw [hdigits]
        exact ⟨c, _, skipBlanks_of_isDigit hc _, ne_of_isDigit hc rfl, ne_of_isDigit hc rfl⟩
  | emptyList _ => exact ⟨'[', _, rfl, by decide, by decide⟩
  | list _ => exact ⟨'[', _, rfl, by decide, by decide⟩
  | emptyTable _ => exact ⟨'\x7b', _, rfl, by decide, by decide⟩
  | table _ => exact ⟨'\x7b', _, rfl, by decide, by decide⟩
  | lastItem hbefore _ _ ih =>
      rw [List.append_assoc, skipBlanks_append hbefore, List.append_assoc]
      exact ih _
  | item hbefore _ _ _ ih _ =>
      rw [List.append_assoc, skipBlanks_append hbefore, List.append_assoc]
      exact ih _
  | lastEntry key hbefore _ _ _ _ =>
      rw [List.append_assoc, skipBlanks_append hbefore]
      exact ⟨'"', _, rfl, by decide, by decide⟩
  | entry key hbefore _ _ _ _ _ =>
      rw [List.append_assoc, skipBlanks_append hbefore]
      exact ⟨'"', _, rfl, by decide, by decide⟩

theorem readValue_skipBlanks (depth : Nat) (text : List Char) :
    readValue depth (skipBlanks text) = readValue depth text := by
  cases depth with
  | zero => rfl
  | succ depth => rw [readValue, readValue, skipBlanks_skipBlanks]

theorem readItems_skipBlanks (depth : Nat) (text : List Char) :
    readItems depth (skipBlanks text) = readItems depth text := by
  cases depth with
  | zero => rfl
  | succ depth => rw [readItems, readItems, readValue_skipBlanks]

theorem readEntries_skipBlanks (depth : Nat) (text : List Char) :
    readEntries depth (skipBlanks text) = readEntries depth text := by
  cases depth with
  | zero => rfl
  | succ depth => rw [readEntries, readEntries, skipBlanks_skipBlanks]

theorem readValue_magnitude {depth : Nat} {text tail : List Char} {c : Char}
    (hc : c.isDigit = true) (h : skipBlanks text = c :: tail) :
    readValue (depth + 1) text = readMagnitude false (c :: tail) := by
  rw [readValue, h]
  split
  next heq => exact absurd (List.cons.inj heq).1 (ne_of_isDigit hc rfl)
  next heq => exact absurd (List.cons.inj heq).1 (ne_of_isDigit hc rfl)
  next heq => exact absurd (List.cons.inj heq).1 (ne_of_isDigit hc rfl)
  next heq => exact absurd (List.cons.inj heq).1 (ne_of_isDigit hc rfl)
  next heq => exact absurd (List.cons.inj heq).1 (ne_of_isDigit hc rfl)
  next heq => exact absurd (List.cons.inj heq).1 (ne_of_isDigit hc rfl)
  next heq => exact absurd (List.cons.inj heq).1 (ne_of_isDigit hc rfl)
  next => rfl

/-- What the reader makes of a text of a part, whatever follows. -/
def Reads : Part → List Char → Prop
  | .value value, text => ∀ depth rest, text.length < depth → Ends rest →
      readValue depth (text ++ rest) = some (value, rest)
  | .items items, text => ∀ depth rest, text.length + 1 < depth →
      readItems depth (text ++ ']' :: rest) = some (items, rest)
  | .entries entries, text => ∀ depth rest, text.length + 1 < depth →
      readEntries depth (text ++ '\x7d' :: rest) = some (entries, rest)

theorem reads_string (content : String) :
    Reads (.value (.string content)) (quote (some content)) := by
  intro depth rest hdepth _
  obtain ⟨depth, rfl⟩ := Nat.exists_eq_succ_of_ne_zero (Nat.ne_zero_of_lt hdepth)
  obtain ⟨text, hquote, hread⟩ := readString_quote content rest
  have hskip : skipBlanks ('"' :: text) = '"' :: text := rfl
  rw [hquote, readValue, hskip]
  simp only [hread, Option.bind_eq_bind, Option.bind_some]
  rfl

theorem reads_integer (value : Int) : Reads (.value (.integer value)) (signed value) := by
  intro depth rest hdepth hends
  obtain ⟨depth, rfl⟩ := Nat.exists_eq_succ_of_ne_zero (Nat.ne_zero_of_lt hdepth)
  unfold signed
  split
  next hneg =>
    have hskip : ∀ text, skipBlanks ('-' :: text) = '-' :: text := fun _ => rfl
    rw [List.cons_append, readValue, hskip]
    simp only [readMagnitude_unsigned (fun _ => show value.natAbs ≠ 0 by omega) hends, if_true]
    rw [show -(value.natAbs : Int) = value by omega]
  next hpos =>
    obtain ⟨c, digits, hdigits, hc⟩ := exists_unsigned_eq_cons value.natAbs
    have hvalue : (value.natAbs : Int) = value := by omega
    have hread : readMagnitude false (unsigned value.natAbs ++ rest) = _ :=
      readMagnitude_unsigned (fun h => by cases h) hends
    rw [hdigits, List.cons_append] at hread
    rw [hdigits, List.cons_append, readValue_magnitude hc (skipBlanks_of_isDigit hc _), hread,
      if_neg Bool.false_ne_true, hvalue]

theorem reads_emptyList {gap : List Char} (hgap : Blanks gap) :
    Reads (.value (.list [])) ('[' :: (gap ++ [']'])) := by
  intro depth rest hdepth _
  obtain ⟨depth, rfl⟩ := Nat.exists_eq_succ_of_ne_zero (Nat.ne_zero_of_lt hdepth)
  have hopen : ∀ text, skipBlanks ('[' :: text) = '[' :: text := fun _ => rfl
  have hclose : skipBlanks (']' :: rest) = ']' :: rest := rfl
  rw [List.cons_append, List.append_assoc, List.singleton_append, readValue, hopen]
  simp only [skipBlanks_append hgap, hclose]

theorem reads_list {items : List Value} {text : List Char} (h : Spells (.items items) text)
    (ih : Reads (.items items) text) : Reads (.value (.list items)) ('[' :: (text ++ [']'])) := by
  intro depth rest hdepth _
  obtain ⟨depth, rfl⟩ := Nat.exists_eq_succ_of_ne_zero (Nat.ne_zero_of_lt hdepth)
  have hopen : ∀ text, skipBlanks ('[' :: text) = '[' :: text := fun _ => rfl
  obtain ⟨c, tail, hskip, hne, -⟩ := exists_skipBlanks h (']' :: rest)
  have hread : readItems depth (c :: tail) = some (items, rest) := by
    rw [← hskip, readItems_skipBlanks]
    refine ih depth rest ?_
    simp only [List.length_cons, List.length_append] at hdepth
    omega
  rw [List.cons_append, List.append_assoc, List.singleton_append, readValue, hopen]
  simp only [hskip]
  split
  next heq => exact absurd (List.cons.inj heq).1 hne
  next => rw [hread]; rfl

theorem reads_emptyTable {gap : List Char} (hgap : Blanks gap) :
    Reads (.value (.table [])) ('\x7b' :: (gap ++ ['\x7d'])) := by
  intro depth rest hdepth _
  obtain ⟨depth, rfl⟩ := Nat.exists_eq_succ_of_ne_zero (Nat.ne_zero_of_lt hdepth)
  have hopen : ∀ text, skipBlanks ('\x7b' :: text) = '\x7b' :: text := fun _ => rfl
  have hclose : skipBlanks ('\x7d' :: rest) = '\x7d' :: rest := rfl
  rw [List.cons_append, List.append_assoc, List.singleton_append, readValue, hopen]
  simp only [skipBlanks_append hgap, hclose]

theorem reads_table {entries : List (Quoted × Value)} {text : List Char}
    (h : Spells (.entries entries) text) (ih : Reads (.entries entries) text) :
    Reads (.value (.table entries)) ('\x7b' :: (text ++ ['\x7d'])) := by
  intro depth rest hdepth _
  obtain ⟨depth, rfl⟩ := Nat.exists_eq_succ_of_ne_zero (Nat.ne_zero_of_lt hdepth)
  have hopen : ∀ text, skipBlanks ('\x7b' :: text) = '\x7b' :: text := fun _ => rfl
  obtain ⟨c, tail, hskip, -, hne⟩ := exists_skipBlanks h ('\x7d' :: rest)
  have hread : readEntries depth (c :: tail) = some (entries, rest) := by
    rw [← hskip, readEntries_skipBlanks]
    refine ih depth rest ?_
    simp only [List.length_cons, List.length_append] at hdepth
    omega
  rw [List.cons_append, List.append_assoc, List.singleton_append, readValue, hopen]
  simp only [hskip]
  split
  next heq => exact absurd (List.cons.inj heq).1 hne
  next => rw [hread]; rfl

theorem readValue_blanks {blanks : List Char} (h : Blanks blanks) (depth : Nat)
    (text : List Char) : readValue depth (blanks ++ text) = readValue depth text := by
  rw [← readValue_skipBlanks, skipBlanks_append h, readValue_skipBlanks]

/-- A value with blanks around it, and one more character behind them. -/
theorem readValue_padded {value : Value} {before text after : List Char} {c : Char}
    (ih : Reads (.value value) text) (hbefore : Blanks before) (hafter : Blanks after)
    (hc : c = ',' ∨ c = ']' ∨ c = '\x7d') {depth : Nat} (hdepth : text.length < depth)
    (rest : List Char) :
    readValue depth (before ++ (text ++ (after ++ c :: rest))) =
      some (value, after ++ c :: rest) := by
  rw [readValue_blanks hbefore]
  exact ih depth _ hdepth (ends_append hafter (ends_cons hc rest))

theorem reads_lastItem {item : Value} {before text after : List Char}
    (hbefore : Blanks before) (hafter : Blanks after) (ih : Reads (.value item) text) :
    Reads (.items [item]) (before ++ (text ++ after)) := by
  intro depth rest hdepth
  obtain ⟨depth, rfl⟩ := Nat.exists_eq_succ_of_ne_zero (Nat.ne_zero_of_lt hdepth)
  simp only [List.length_append] at hdepth
  have hclose : skipBlanks (']' :: rest) = ']' :: rest := rfl
  rw [List.append_assoc, List.append_assoc, readItems,
    readValue_padded ih hbefore hafter (Or.inr (Or.inl rfl)) (by omega)]
  simp only [Option.bind_eq_bind, Option.bind_some, skipBlanks_append hafter, hclose]
  rfl

theorem reads_item {item : Value} {items : List Value} {before text after others : List Char}
    (hbefore : Blanks before) (hafter : Blanks after) (ih : Reads (.value item) text)
    (ihs : Reads (.items items) others) :
    Reads (.items (item :: items)) (before ++ (text ++ (after ++ ',' :: others))) := by
  intro depth rest hdepth
  obtain ⟨depth, rfl⟩ := Nat.exists_eq_succ_of_ne_zero (Nat.ne_zero_of_lt hdepth)
  simp only [List.length_append, List.length_cons] at hdepth
  have hcomma : ∀ text, skipBlanks (',' :: text) = ',' :: text := fun _ => rfl
  rw [List.append_assoc, List.append_assoc, List.append_assoc, List.cons_append, readItems,
    readValue_padded ih hbefore hafter (Or.inl rfl) (by omega)]
  simp only [Option.bind_eq_bind, Option.bind_some, skipBlanks_append hafter, hcomma,
    ihs depth rest (by omega)]
  rfl

/-- What follows the value of an entry decides whether it was the last. -/
theorem readEntries_key {key : String} {value : Value} {before gap text rest : List Char}
    {depth : Nat} (hbefore : Blanks before) (hgap : Blanks gap)
    (hvalue : readValue depth text = some (value, rest)) (others : List Char) :
    (skipBlanks rest = '\x7d' :: others →
      readEntries (depth + 1) (before ++ (quote (some key) ++ (gap ++ ':' :: text))) =
        some ([(some key, value)], others)) ∧
    (skipBlanks rest = ',' :: others →
      readEntries (depth + 1) (before ++ (quote (some key) ++ (gap ++ ':' :: text))) =
        (readEntries depth others).map fun (entries, rest) =>
          ((some key, value) :: entries, rest)) := by
  obtain ⟨tail, hquote, hread⟩ := readString_quote key (gap ++ ':' :: text)
  have hcolon : skipBlanks (':' :: text) = ':' :: text := rfl
  have hskip : skipBlanks ('"' :: tail) = '"' :: tail := rfl
  rw [readEntries, skipBlanks_append hbefore, hquote, hskip]
  simp only [hread, Option.bind_eq_bind, Option.bind_some, skipBlanks_append hgap, hcolon, hvalue]
  constructor
  · intro hclose
    rw [hclose]
    rfl
  · intro hcomma
    rw [hcomma, Option.map_eq_bind]
    rfl

theorem reads_lastEntry {key : String} {value : Value} {before gap between text after : List Char}
    (hbefore : Blanks before) (hgap : Blanks gap) (hbetween : Blanks between)
    (hafter : Blanks after) (ih : Reads (.value value) text) :
    Reads (.entries [(some key, value)])
      (before ++ (quote (some key) ++ (gap ++ ':' :: (between ++ (text ++ after))))) := by
  intro depth rest hdepth
  obtain ⟨depth, rfl⟩ := Nat.exists_eq_succ_of_ne_zero (Nat.ne_zero_of_lt hdepth)
  simp only [List.length_append, List.length_cons] at hdepth
  have hvalue := readValue_padded ih hbetween hafter (Or.inr (Or.inr rfl))
    (show text.length < depth by omega) rest
  simp only [List.append_assoc, List.cons_append]
  exact (readEntries_key hbefore hgap hvalue rest).1 (skipBlanks_append hafter _)

theorem reads_entry {key : String} {value : Value} {entries : List (Quoted × Value)}
    {before gap between text after others : List Char}
    (hbefore : Blanks before) (hgap : Blanks gap) (hbetween : Blanks between)
    (hafter : Blanks after) (ih : Reads (.value value) text)
    (ihs : Reads (.entries entries) others) :
    Reads (.entries ((some key, value) :: entries))
      (before ++ (quote (some key) ++ (gap ++ ':' :: (between ++ (text ++
        (after ++ ',' :: others)))))) := by
  intro depth rest hdepth
  obtain ⟨depth, rfl⟩ := Nat.exists_eq_succ_of_ne_zero (Nat.ne_zero_of_lt hdepth)
  simp only [List.length_append, List.length_cons] at hdepth
  have hvalue := readValue_padded ih hbetween hafter (Or.inl rfl)
    (show text.length < depth by omega) (others ++ '\x7d' :: rest)
  simp only [List.append_assoc, List.cons_append]
  rw [(readEntries_key hbefore hgap hvalue _).2 (skipBlanks_append hafter _),
    ihs depth rest (by omega), Option.map_some]

theorem reads_of_spells {part : Part} {text : List Char} (h : Spells part text) :
    Reads part text := by
  induction h with
  | string content => exact reads_string content
  | integer value => exact reads_integer value
  | emptyList hgap => exact reads_emptyList hgap
  | list h ih => exact reads_list h ih
  | emptyTable hgap => exact reads_emptyTable hgap
  | table h ih => exact reads_table h ih
  | lastItem hbefore hafter _ ih => exact reads_lastItem hbefore hafter ih
  | item hbefore hafter _ _ ih ihs => exact reads_item hbefore hafter ih ihs
  | lastEntry key hbefore hgap hbetween hafter _ ih =>
      exact reads_lastEntry hbefore hgap hbetween hafter ih
  | entry key hbefore hgap hbetween hafter _ _ ih ihs =>
      exact reads_entry hbefore hgap hbetween hafter ih ihs

theorem read?_of_spells {value : Value} {text blanks : List Char}
    (h : Spells (.value value) text) (hblanks : Blanks blanks) :
    read? (String.ofList (text ++ blanks)) = some value := by
  have hends := ends_append hblanks ends_nil
  rw [List.append_nil] at hends
  have hread := reads_of_spells h ((text ++ blanks).length + 1) blanks
    (by rw [List.length_append]; omega) hends
  have hskip := skipBlanks_append hblanks []
  rw [List.append_nil] at hskip
  rw [read?, String.toList_ofList]
  simp only [hread, Option.bind_eq_bind, Option.bind_some, hskip]
  exact if_pos rfl

/-! ## The two layouts -/

/-- A value of strings, whole numbers, lists and tables. -/
inductive Plain : Value → Prop where
  | string (content : String) : Plain (.string content)
  | integer (value : Int) : Plain (.integer value)
  | list {items : List Value} : (∀ item ∈ items, Plain item) → Plain (.list items)
  | table {entries : List (String × Value)} : (∀ entry ∈ entries, Plain entry.2) →
      Plain (.record entries)

theorem blanks_nil : Blanks [] := by
  intro c hc
  cases hc

theorem blanks_newLine (level : Nat) : Blanks (newLine level) := by
  intro c hc
  rcases List.mem_cons.1 hc with rfl | hc
  · exact Or.inr (Or.inl rfl)
  · exact Or.inl (List.eq_of_mem_replicate hc)

theorem blanks_space : Blanks [' '] := by
  intro c hc
  exact Or.inl (List.mem_singleton.1 hc)

theorem spells_compactItems {items : List Value} (hne : items ≠ [])
    (h : ∀ item ∈ items, Spells (.value item) (compact item)) :
    Spells (.items items) (compactItems items) := by
  induction items with
  | nil => exact absurd rfl hne
  | cons item items ih =>
      obtain ⟨hitem, hitems⟩ := List.forall_mem_cons.1 h
      cases items with
      | nil =>
          have hlast := Spells.lastItem blanks_nil blanks_nil hitem
          rwa [List.nil_append, List.append_nil] at hlast
      | cons other items =>
          exact .item blanks_nil blanks_nil hitem (ih (List.cons_ne_nil other items) hitems)

theorem spells_indentedItems {level : Nat} {items : List Value} (hne : items ≠ [])
    (h : ∀ item ∈ items, Spells (.value item) (indented level item)) {gap : List Char}
    (hgap : Blanks gap) : Spells (.items items) (indentedItems level items ++ gap) := by
  induction items with
  | nil => exact absurd rfl hne
  | cons item items ih =>
      obtain ⟨hitem, hitems⟩ := List.forall_mem_cons.1 h
      cases items with
      | nil =>
          have hlast := Spells.lastItem (blanks_newLine level) hgap hitem
          rwa [← List.append_assoc] at hlast
      | cons other items =>
          have hothers := ih (List.cons_ne_nil other items) hitems
          have hitem := Spells.item (blanks_newLine level) blanks_nil hitem hothers
          rw [List.nil_append, ← List.append_assoc, ← List.cons_append, ← List.append_assoc]
            at hitem
          exact hitem

theorem spells_compactEntries {entries : List (String × Value)} (hne : entries ≠ [])
    (h : ∀ entry ∈ entries, Spells (.value entry.2) (compact entry.2)) :
    Spells (.entries (entries.map fun (key, value) => (some key, value)))
      (compactEntries (entries.map fun (key, value) => (some key, value))) := by
  induction entries with
  | nil => exact absurd rfl hne
  | cons entry entries ih =>
      obtain ⟨key, value⟩ := entry
      obtain ⟨hvalue, hvalues⟩ := List.forall_mem_cons.1 h
      cases entries with
      | nil =>
          have hlast := Spells.lastEntry key blanks_nil blanks_nil blanks_nil blanks_nil
            hvalue
          rwa [List.append_nil] at hlast
      | cons other entries =>
          have hothers := ih (List.cons_ne_nil other entries) hvalues
          have hentry := Spells.entry key blanks_nil blanks_nil blanks_nil blanks_nil
            hvalue hothers
          simp only [List.nil_append] at hentry
          rw [← List.cons_append, ← List.append_assoc] at hentry
          exact hentry

theorem spells_indentedEntries {level : Nat} {entries : List (String × Value)}
    (hne : entries ≠ [])
    (h : ∀ entry ∈ entries, Spells (.value entry.2) (indented level entry.2)) {gap : List Char}
    (hgap : Blanks gap) :
    Spells (.entries (entries.map fun (key, value) => (some key, value)))
      (indentedEntries level (entries.map fun (key, value) => (some key, value)) ++ gap) := by
  induction entries with
  | nil => exact absurd rfl hne
  | cons entry entries ih =>
      obtain ⟨key, value⟩ := entry
      obtain ⟨hvalue, hvalues⟩ := List.forall_mem_cons.1 h
      cases entries with
      | nil =>
          have hlast := Spells.lastEntry key (blanks_newLine level) blanks_nil
            blanks_space hgap hvalue
          rw [List.nil_append, List.singleton_append, ← List.cons_append, ← List.cons_append,
            ← List.append_assoc, ← List.append_assoc] at hlast
          exact hlast
      | cons other entries =>
          have hothers := ih (List.cons_ne_nil other entries) hvalues
          have hentry := Spells.entry key (blanks_newLine level) blanks_nil
            blanks_space blanks_nil hvalue hothers
          rw [List.nil_append, List.nil_append, List.singleton_append, ← List.cons_append,
            ← List.cons_append, ← List.cons_append, ← List.append_assoc, ← List.append_assoc,
            ← List.append_assoc] at hentry
          exact hentry

theorem spells_compact {value : Value} (h : Plain value) :
    Spells (.value value) (compact value) := by
  induction h with
  | string content => exact .string content
  | integer value => exact .integer value
  | @list items _ ih =>
      cases items with
      | nil => exact .emptyList blanks_nil
      | cons item items => exact .list (spells_compactItems (List.cons_ne_nil item items) ih)
  | @table entries _ ih =>
      cases entries with
      | nil => exact .emptyTable blanks_nil
      | cons entry entries =>
          exact .table (spells_compactEntries (List.cons_ne_nil entry entries) ih)

theorem spells_indented {value : Value} (h : Plain value) (level : Nat) :
    Spells (.value value) (indented level value) := by
  induction h generalizing level with
  | string content => exact .string content
  | integer value => exact .integer value
  | @list items _ ih =>
      cases items with
      | nil => exact .emptyList blanks_nil
      | cons item items =>
          exact .list (spells_indentedItems (List.cons_ne_nil item items)
            (fun item hitem => ih item hitem (level + 1)) (blanks_newLine level))
  | @table entries _ ih =>
      cases entries with
      | nil => exact .emptyTable blanks_nil
      | cons entry entries =>
          exact .table (spells_indentedEntries (List.cons_ne_nil entry entries)
            (fun entry hentry => ih entry hentry (level + 1)) (blanks_newLine level))

/-- A value is read back from either layout, with or without a line end behind it. -/
theorem read?_layout {value : Value} (h : Plain value) {text : String}
    (htext : text = render value ∨ text = renderIndented value) {blanks : List Char}
    (hblanks : Blanks blanks) : read? (text ++ String.ofList blanks) = some value := by
  rcases htext with rfl | rfl
  · have hread := read?_of_spells (spells_compact h) hblanks
    rwa [String.ofList_append] at hread
  · have hread := read?_of_spells (spells_indented h 0) hblanks
    rwa [String.ofList_append] at hread

end Recurrence.Json
