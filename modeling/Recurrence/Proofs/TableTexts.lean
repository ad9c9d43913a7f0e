import Recurrence.Command.Arguments
import Recurrence.Proofs.Answers
import Recurrence.Proofs.Texts

/-!
# Texts of a table on the command line

A table writes a year from 0 on with four digits, and an earlier one as a minus sign with
three or four. Reading wants six digits behind a sign. So the ends of a window can be copied
out of a table from year 0 on (`tableText_isReadBack`), and before that they are refused;
the texts of an array are read back whatever the year (`readDateTime_text`).

A value comes to its option attached to it or as the next argument. Either way it is read
once, behind the rule file (`readCommand_attached`, `readCommand_apart`). What begins with a
minus sign is an option in itself if it stands apart.
-/

namespace Recurrence

namespace Text

/-- A field that ends too early is not read. -/
theorem readFixed_of_short {width : Nat} {digits : List Char} (h : digits.length < width)
    {c : Char} (hc : c.isDigit = false) (rest : List Char) :
    readFixed width (digits ++ c :: rest) = none := by
  induction digits generalizing width with
  | nil =>
      obtain ⟨width, rfl⟩ := Nat.exists_eq_add_one_of_ne_zero (Nat.ne_of_gt h)
      rw [List.nil_append, readFixed, hc]
      rfl
  | cons d digits ih =>
      obtain ⟨width, rfl⟩ := Nat.exists_eq_add_one_of_ne_zero (Nat.ne_of_gt (Nat.zero_lt_of_lt h))
      rw [List.cons_append, readFixed, ih (Nat.lt_of_succ_lt_succ h)]
      split <;> rfl

/-- A text without blanks in its first and in its last part has none at its ends. -/
theorem trimBlanks_join {front back : List Char} (hfront : ∀ c ∈ front, isBlank c = false)
    (hback : ∀ c ∈ back, isBlank c = false) (hfront' : front ≠ []) (hback' : back ≠ [])
    (mark : Char) : trimBlanks (front ++ mark :: back) = front ++ mark :: back := by
  refine trimBlanks_eq_self (List.append_ne_nil_of_left_ne_nil hfront' _) ?_ ?_
  · rw [List.head_append_of_ne_nil hfront']
    exact hfront _ (List.head_mem hfront')
  · rw [List.getLast_append_of_right_ne_nil _ _ (List.cons_ne_nil mark back),
      List.getLast_cons hback']
    exact hback _ (List.getLast_mem hback')

theorem isBlank_of_mem_fixedDigits {width value : Nat} {c : Char}
    (h : c ∈ fixedDigits width value) : isBlank c = false :=
  isBlank_of_isDigit (isDigit_of_mem_fixedDigits h)

theorem isBlank_of_mem_fraction {nano : Nat} {c : Char} (h : c ∈ fraction nano) :
    isBlank c = false := by
  unfold fraction at h
  split at h
  next => exact absurd h List.not_mem_nil
  next =>
    rcases List.mem_cons.1 h with rfl | h
    · decide
    · have hmem := (List.dropWhile_suffix _).subset (List.mem_reverse.1 h)
      exact isBlank_of_mem_fixedDigits (List.mem_reverse.1 hmem)

/-- A year, with a sign of its own and more digits before year 0. -/
theorem isBlank_of_mem_year {year : Int} {width : Nat} {c : Char}
    (h : c ∈ if year < 0 then '-' :: fixedDigits width year.natAbs
      else fixedDigits 4 year.natAbs) : isBlank c = false := by
  split at h
  next =>
    rcases List.mem_cons.1 h with rfl | h
    · decide
    · exact isBlank_of_mem_fixedDigits h
  next => exact isBlank_of_mem_fixedDigits h

theorem isBlank_of_mem_fields {first : List Char} (hfirst : ∀ c ∈ first, isBlank c = false)
    {mark : Char} (hmark : isBlank mark = false) {a b : Nat} :
    ∀ c ∈ first ++ mark :: fixedDigits 2 a ++ mark :: fixedDigits 2 b, isBlank c = false := by
  intro c hc
  simp only [List.mem_append, List.mem_cons] at hc
  rcases hc with (hc | rfl | hc) | rfl | hc
  · exact hfirst c hc
  · exact hmark
  · exact isBlank_of_mem_fixedDigits hc
  · exact hmark
  · exact isBlank_of_mem_fixedDigits hc

end Text

open Text

namespace DateTime

/-! ## Reading what a table shows -/

/-- In front of the clock a table shows a date without blanks. -/
theorem exists_tableChars (t : DateTime) : ∃ front, front ≠ [] ∧
    (∀ c ∈ front, isBlank c = false) ∧ t.tableChars = front ++ ' ' :: t.clockChars :=
  ⟨_, List.append_ne_nil_of_right_ne_nil _ (List.cons_ne_nil _ _),
    isBlank_of_mem_fields (fun _ hc => isBlank_of_mem_year hc) (by decide), rfl⟩

theorem isBlank_of_mem_clockChars (t : DateTime) : ∀ c ∈ t.clockChars, isBlank c = false :=
  isBlank_of_mem_fields (fun _ hc => isBlank_of_mem_fixedDigits hc) (by decide)

theorem clockChars_ne_nil (t : DateTime) : t.clockChars ≠ [] :=
  List.append_ne_nil_of_right_ne_nil _ (List.cons_ne_nil _ _)

theorem trimBlanks_tableChars (t : DateTime) : trimBlanks t.tableChars = t.tableChars := by
  obtain ⟨front, hne, hfront, hchars⟩ := t.exists_tableChars
  rw [hchars]
  exact trimBlanks_join hfront t.isBlank_of_mem_clockChars hne t.clockChars_ne_nil ' '

theorem ofChars?_tableChars_of_nonneg {t : DateTime} (h : 0 ≤ t.date.year) :
    ofChars? t.tableChars = some t.wholeSecond := by
  have hyear : tableYearChars t.date.year = Date.yearChars t.date.year := by
    rw [tableYearChars, if_neg (Int.not_lt.2 h), Date.yearChars, if_neg (Int.not_lt.2 h)]
  have hchars : t.tableChars =
      t.wholeSecond.date.chars ++ ' ' :: t.wholeSecond.clockChars ++
        fraction t.wholeSecond.nano := by
    rw [tableChars, hyear]
    exact (List.append_nil _).symm
  rw [hchars]
  exact t.wholeSecond.ofChars?_append (Or.inr (Or.inr rfl))

/-- Of a year before year 0 a table shows less than the six digits that reading wants. -/
theorem ofChars?_tableChars_of_neg {t : DateTime} (h : t.date.year < 0) :
    ofChars? t.tableChars = none := by
  obtain ⟨digits, rest, hlength, hchars⟩ : ∃ digits rest, digits.length < 6 ∧
      t.tableChars = '-' :: (digits ++ '-' :: rest) := by
    refine ⟨fixedDigits (if t.date.year ≤ -1000 then 4 else 3) t.date.year.natAbs,
      fixedDigits 2 t.date.month.toNat ++ '-' :: fixedDigits 2 t.date.day.toNat ++
        ' ' :: t.clockChars, ?_, ?_⟩
    · rw [length_fixedDigits]
      split <;> decide
    · simp only [tableChars, tableYearChars, if_pos h, List.cons_append, List.append_assoc]
  have hyear : readYear t.tableChars = none := by
    rw [hchars, readYear, readFixed_of_short hlength (by decide)]
    rfl
  rw [ofChars?, readDate, hyear]
  rfl

theorem exists_digit_of_nonneg {t : DateTime} (h : 0 ≤ t.date.year) :
    ∃ c text, c.isDigit = true ∧ t.tableChars = c :: text := by
  rw [tableChars, tableYearChars, if_neg (Int.not_lt.2 h)]
  exact ⟨_, _, isDigit_digit _, rfl⟩

theorem exists_digit_of_neg {t : DateTime} (h : t.date.year < 0) :
    ∃ c text, c.isDigit = true ∧ t.tableChars = '-' :: c :: text := by
  rw [tableChars, tableYearChars, if_pos h]
  split <;> exact ⟨_, _, isDigit_digit _, rfl⟩

end DateTime

namespace Command

theorem readDateTime_tableText_of_nonneg {t : DateTime} (h : 0 ≤ t.date.year) :
    readDateTime t.tableText = .ok t.wholeSecond := by
  rw [readDateTime, DateTime.tableText, String.toList_ofList, DateTime.trimBlanks_tableChars,
    DateTime.ofChars?_tableChars_of_nonneg h]

theorem readDateTime_tableText_of_neg {t : DateTime} (h : t.date.year < 0) :
    readDateTime t.tableText = .error (.invalidDateTime t.tableText) := by
  rw [readDateTime, DateTime.tableText, String.toList_ofList, DateTime.trimBlanks_tableChars,
    DateTime.ofChars?_tableChars_of_neg h]

/-- The text that an array holds of a date-time is read back on the command line. -/
theorem readDateTime_text (t : DateTime) : readDateTime t.text = .ok t := by
  have hdate : ∀ c ∈ t.date.chars, isBlank c = false :=
    isBlank_of_mem_fields (fun _ hc => isBlank_of_mem_year hc) (by decide)
  have hclock : ∀ c ∈ t.clockChars ++ fraction t.nano, isBlank c = false := by
    intro c hc
    rcases List.mem_append.1 hc with hc | hc
    · exact t.isBlank_of_mem_clockChars c hc
    · exact isBlank_of_mem_fraction hc
  have htrim : trimBlanks t.chars = t.chars := by
    rw [DateTime.chars, List.append_assoc, List.cons_append]
    exact trimBlanks_join hdate hclock
      (List.append_ne_nil_of_right_ne_nil _ (List.cons_ne_nil _ _))
      (List.append_ne_nil_of_left_ne_nil t.clockChars_ne_nil _) 'T'
  rw [readDateTime, DateTime.text, String.toList_ofList, htrim, DateTime.ofChars?_chars]

/-! ## Options of a listing -/

namespace Flag

theorem mark_notMem_long (flag : Flag) : ∀ c ∈ flag.long, decide (c ≠ '=') = true := by
  refine List.all_eq_true.1 ?_
  cases flag <;> decide

theorem find?_long {name : CommandName} {flag : Flag} (h : flag ∈ name.flags) :
    name.flags.find? (fun other => other.long = flag.long) = some flag := by
  cases name <;> cases flag <;> first | rfl | exact absurd h (by decide)

theorem long_ne_nil (flag : Flag) : flag.long ≠ [] := by
  cases flag <;> decide

/-- The ways to give an option its value: attached to the name, or behind it. -/
def spellings (flag : Flag) (value : String) : List (List String) :=
  [["--" ++ String.ofList flag.long ++ "=" ++ value], ["--" ++ String.ofList flag.long, value]]

end Flag

namespace Progress

variable {progress : Progress} {operand : Progress → String → Except UsageError Progress}

theorem take_word {flags : List Flag} (hopen : progress.operandsOnly = false) {argument : String}
    (hhead : argument.toList.head? ≠ some '-') :
    progress.take flags operand argument = progress.takeWord operand argument := by
  rw [take, hopen, if_neg Bool.false_ne_true]
  split
  next h => exact absurd (congrArg List.head? h) hhead
  next h => exact absurd (congrArg List.head? h) hhead
  next h => exact absurd (congrArg List.head? h) hhead
  next => rfl

theorem take_long {flags : List Flag} (hopen : progress.operandsOnly = false) {argument : String}
    {text : List Char} (hne : text ≠ []) (h : argument.toList = '-' :: '-' :: text) :
    progress.take flags operand argument = progress.takeLong flags text := by
  rw [take, hopen, if_neg Bool.false_ne_true, h]
  cases text with
  | nil => exact absurd rfl hne
  | cons c text => rfl

theorem take_attached {name : CommandName} {flag : Flag} (hflag : flag ∈ name.flags)
    (htakes : flag.takesValue = true) (hopen : progress.operandsOnly = false) (value : String) :
    progress.take name.flags operand ("--" ++ String.ofList flag.long ++ "=" ++ value) =
      progress.takeFlag flag (some value) := by
  have htext : ("--" ++ String.ofList flag.long ++ "=" ++ value).toList =
      '-' :: '-' :: (flag.long ++ '=' :: value.toList) := by
    simp only [String.toList_append, String.toList_ofList, List.append_assoc]
    rfl
  have hname : (flag.long ++ '=' :: value.toList).takeWhile (fun c => c ≠ '=') = flag.long := by
    rw [List.takeWhile_append_of_pos flag.mark_notMem_long]
    exact List.append_nil _
  rw [take_long hopen (List.append_ne_nil_of_right_ne_nil _ (List.cons_ne_nil _ _)) htext,
    takeLong]
  simp only [hname, List.drop_left, Flag.find?_long hflag, htakes, String.ofList_toList]
  rfl

theorem take_apart {name : CommandName} {flag : Flag} (hflag : flag ∈ name.flags)
    (hopen : progress.operandsOnly = false) :
    progress.take name.flags operand ("--" ++ String.ofList flag.long) =
      progress.takeFlag flag none := by
  have htext : ("--" ++ String.ofList flag.long).toList = '-' :: '-' :: flag.long := by
    simp only [String.toList_append, String.toList_ofList]
    rfl
  have hname : flag.long.takeWhile (fun c => c ≠ '=') = flag.long :=
    List.takeWhile_eq_self_iff.2 flag.mark_notMem_long
  rw [take_long hopen flag.long_ne_nil htext, takeLong]
  simp only [hname, List.drop_length, Flag.find?_long hflag]
  rfl

/-- No option is named by a digit. -/
theorem take_digit {name : CommandName} (hopen : progress.operandsOnly = false)
    {argument : String} {c : Char} {text : List Char} (hc : c.isDigit = true)
    (h : argument.toList = '-' :: c :: text) :
    progress.take name.flags operand argument = .error .unknownArgument := by
  have hnone : name.flags.find? (fun flag => flag.short? = some c) = none := by
    rw [List.find?_eq_none]
    rintro flag - hshort
    have hletter : flag.short? = some c := of_decide_eq_true hshort
    cases flag <;> cases hletter <;> exact absurd hc (by decide)
  rw [take, hopen, if_neg Bool.false_ne_true, h]
  split
  next heq => cases heq; exact absurd hc (by decide)
  next heq => cases heq; exact absurd hc (by decide)
  next heq =>
    cases heq
    simp only [takeShort, hnone]
  next hother => exact absurd rfl (hother _ _)

theorem settle_rule {given : Given} {path : String} (hpath : path ≠ "") (hasRule : Bool) :
    settle ⟨given, .rule path, hasRule, false⟩ =
      .ok ⟨{ given with rule := some path }, .nothing, hasRule, false⟩ := by
  have hread : readPath path = .ok path := if_neg hpath
  simp only [settle, hread]
  rfl

theorem takeFlag_some {settled : Progress} (hsettle : progress.settle = .ok settled) {flag : Flag}
    (htakes : flag.takesValue = true) (hnew : settled.given.has flag = false) (value : String) :
    progress.takeFlag flag (some value) =
      do let given ← settled.given.put flag value; return { settled with given := given } := by
  rw [takeFlag, hsettle, ok_bind]
  cases flag with
  | config | count | lower | upper | format =>
      simp only [Given.add, hnew]
      rfl
  | help | version => cases htakes

theorem takeFlag_none {settled : Progress} (hsettle : progress.settle = .ok settled) {flag : Flag}
    (htakes : flag.takesValue = true) :
    progress.takeFlag flag none = .ok { settled with pending := .flag flag none } := by
  rw [takeFlag, hsettle, ok_bind]
  cases flag with
  | config | count | lower | upper | format => rfl
  | help | version => cases htakes

end Progress

theorem Given.rule_put {given given' : Given} {flag : Flag} {value : String}
    (h : given.put flag value = .ok given') : given'.rule = given.rule := by
  cases flag with
  | config | count | lower | upper | format =>
      obtain ⟨_, -, h⟩ := bind_eq_ok_iff.1 h
      cases h
      rfl
  | help | version => cases h

/-- A listing of a rule file with one option that has a value. -/
def readListing (path : String) (flag : Flag) (value : String) : Except UsageError Request := do
  let given ← Given.put { Given.empty with rule := some path } flag value
  return .list ⟨path, given.count, given.lower, given.upper, given.format⟩

section

variable {path : String} {flag : Flag}

theorem take_path (hhead : path.toList.head? ≠ some '-') :
    Progress.start.take CommandName.list.flags Progress.takeRule path =
      .ok ⟨.empty, .rule path, true, false⟩ :=
  Progress.take_word rfl hhead

theorem has_empty (flag : Flag) (rule : Option String) :
    Given.has { Given.empty with rule := rule } flag = false := by
  cases flag <;> rfl

theorem readCommand_attached (hpath : path ≠ "") (hhead : path.toList.head? ≠ some '-')
    (hflag : flag ∈ CommandName.list.flags) (htakes : flag.takesValue = true) (value : String) :
    readCommand .list [path, "--" ++ String.ofList flag.long ++ "=" ++ value] =
      readListing path flag value := by
  rw [readCommand, List.foldlM_cons, take_path hhead, ok_bind, List.foldlM_cons,
    Progress.take_attached hflag htakes rfl,
    Progress.takeFlag_some (Progress.settle_rule hpath true) htakes (has_empty flag (some path)),
    readListing]
  cases hput : Given.put { Given.empty with rule := some path } flag value with
  | error e => rfl
  | ok given =>
      have hrule := Given.rule_put hput
      simp only [ok_bind, Progress.settle, hrule, List.foldlM_nil, pure, Except.pure]

theorem readCommand_apart (hpath : path ≠ "") (hhead : path.toList.head? ≠ some '-')
    (hflag : flag ∈ CommandName.list.flags) (htakes : flag.takesValue = true) {value : String}
    (hvalue : value.toList.head? ≠ some '-') :
    readCommand .list [path, "--" ++ String.ofList flag.long, value] =
      readListing path flag value := by
  have htake : Progress.take CommandName.list.flags Progress.takeRule
      ⟨{ Given.empty with rule := some path }, .flag flag none, true, false⟩ value =
        .ok ⟨{ Given.empty with rule := some path }, .flag flag (some value), true, false⟩ :=
    Progress.take_word rfl hvalue
  rw [readCommand, List.foldlM_cons, take_path hhead, ok_bind, List.foldlM_cons,
    Progress.take_apart hflag rfl, Progress.takeFlag_none (Progress.settle_rule hpath true) htakes,
    ok_bind, List.foldlM_cons, htake, readListing]
  simp only [ok_bind, List.foldlM_nil, Progress.settle, Given.add, has_empty, pure, Except.pure]
  cases hput : Given.put { Given.empty with rule := some path } flag value with
  | error e => rfl
  | ok given =>
      have hrule := Given.rule_put hput
      simp only [ok_bind, hrule, if_neg Bool.false_ne_true]

theorem readCommand_apart_of_digit (hpath : path ≠ "") (hhead : path.toList.head? ≠ some '-')
    (hflag : flag ∈ CommandName.list.flags) (htakes : flag.takesValue = true) {value : String}
    {c : Char} {text : List Char} (hc : c.isDigit = true) (hvalue : value.toList = '-' :: c :: text) :
    readCommand .list [path, "--" ++ String.ofList flag.long, value] = .error .unknownArgument := by
  rw [readCommand, List.foldlM_cons, take_path hhead, ok_bind, List.foldlM_cons,
    Progress.take_apart hflag rfl, Progress.takeFlag_none (Progress.settle_rule hpath true) htakes,
    ok_bind, List.foldlM_cons, Progress.take_digit rfl hc hvalue]
  rfl

end

theorem ofArguments_list (arguments : List String) :
    Invocation.ofArguments ("list" :: arguments) =
      do let request ← readCommand .list arguments; return ⟨none, request⟩ := by
  rw [Invocation.ofArguments, readProgram]
  rfl

/-! ## The ends of a window -/

/-- An option that takes an end of the window over into the listing. -/
structure Flag.IsEnd (flag : Flag) (listing : String → DateTime → Listing) : Prop where
  mem : flag ∈ CommandName.list.flags
  takesValue : flag.takesValue = true
  read : ∀ path value, readListing path flag value =
    do let t ← readDateTime value; return .list (listing path t)
  injective : ∀ path, Function.Injective (listing path)

theorem isEnd_lower : Flag.lower.IsEnd fun path t => ⟨path, none, some t, none, none⟩ where
  mem := by decide
  takesValue := rfl
  read path value := by
    rw [readListing.eq_def, Given.put.eq_def]
    cases readDateTime value <;> rfl
  injective path t u h := by
    cases h
    rfl

theorem isEnd_upper : Flag.upper.IsEnd fun path t => ⟨path, none, none, some t, none⟩ where
  mem := by decide
  takesValue := rfl
  read path value := by
    rw [readListing.eq_def, Given.put.eq_def]
    cases readDateTime value <;> rfl
  injective path t u h := by
    cases h
    rfl

theorem readDateTime_tableText_eq_ok_iff (t : DateTime) :
    readDateTime t.tableText = .ok t ↔ t.nano = 0 ∧ 0 ≤ t.date.year := by
  constructor
  · intro h
    by_cases hyear : 0 ≤ t.date.year
    · rw [readDateTime_tableText_of_nonneg hyear] at h
      have hwhole : t.wholeSecond = t := Except.ok.inj h
      exact ⟨(congrArg DateTime.nano hwhole).symm, hyear⟩
    · rw [readDateTime_tableText_of_neg (Int.not_le.1 hyear)] at h
      cases h
  · rintro ⟨hwhole, hyear⟩
    rw [readDateTime_tableText_of_nonneg hyear]
    exact congrArg Except.ok (DateTime.ext_fields rfl hwhole.symm)

theorem Flag.IsEnd.ofArguments_of_read {flag : Flag} {listing : String → DateTime → Listing}
    (hend : flag.IsEnd listing) {path value : String} {arguments : List String} {t : DateTime}
    (hread : readCommand .list (path :: arguments) = readListing path flag value) :
    Invocation.ofArguments ("list" :: path :: arguments) = .ok ⟨none, .list (listing path t)⟩ ↔
      readDateTime value = .ok t := by
  rw [ofArguments_list, hread, hend.read]
  cases readDateTime value with
  | error e => exact ⟨nofun, nofun⟩
  | ok u =>
      constructor
      · intro h
        have hinvocation : (⟨none, .list (listing path u)⟩ : Invocation) =
            ⟨none, .list (listing path t)⟩ := Except.ok.inj h
        have hlisting := Request.list.inj (congrArg Invocation.request hinvocation)
        rw [hend.injective path hlisting]
      · intro h
        rw [Except.ok.inj h]
        rfl

theorem Flag.IsEnd.ofArguments_iff {flag : Flag} {listing : String → DateTime → Listing}
    (hend : flag.IsEnd listing) {path : String} (hpath : path ≠ "")
    (hhead : path.toList.head? ≠ some '-') (t : DateTime) {arguments : List String}
    (harguments : arguments ∈ flag.spellings t.tableText) :
    Invocation.ofArguments ("list" :: path :: arguments) = .ok ⟨none, .list (listing path t)⟩ ↔
      t.nano = 0 ∧ 0 ≤ t.date.year := by
  rw [← readDateTime_tableText_eq_ok_iff]
  rcases List.mem_pair.1 harguments with rfl | rfl
  · exact hend.ofArguments_of_read (readCommand_attached hpath hhead hend.mem hend.takesValue _)
  · by_cases hyear : 0 ≤ t.date.year
    · obtain ⟨c, text, hc, htext⟩ := DateTime.exists_digit_of_nonneg hyear
      have hvalue : t.tableText.toList.head? ≠ some '-' := by
        rw [DateTime.tableText, String.toList_ofList, htext, List.head?_cons]
        intro h
        cases h
        exact absurd hc (by decide)
      exact hend.ofArguments_of_read
        (readCommand_apart hpath hhead hend.mem hend.takesValue hvalue)
    · obtain ⟨c, text, hc, htext⟩ := DateTime.exists_digit_of_neg (Int.not_le.1 hyear)
      have hvalue : t.tableText.toList = '-' :: c :: text := by
        rw [DateTime.tableText, String.toList_ofList, htext]
      rw [ofArguments_list,
        readCommand_apart_of_digit hpath hhead hend.mem hend.takesValue hc hvalue,
        readDateTime_tableText_of_neg (Int.not_le.1 hyear)]
      exact ⟨nofun, nofun⟩

/-- A date-time that a table shows is read back, and taken for it as either end of a window, if
and only if it is a whole second and its year is not before year 0. Of a fraction of a second a
table shows nothing; a year before year 0 it shows in a form that is refused. -/
theorem tableText_isReadBack (t : DateTime) :
    (readDateTime t.tableText = .ok t ↔ t.nano = 0 ∧ 0 ≤ t.date.year) ∧
      (0 ≤ t.date.year → readDateTime t.tableText = .ok t.wholeSecond) ∧
      (t.date.year < 0 →
        readDateTime t.tableText = .error (.invalidDateTime t.tableText)) ∧
      ∀ path, path ≠ "" → path.toList.head? ≠ some '-' →
        (∀ arguments ∈ Flag.lower.spellings t.tableText,
          Invocation.ofArguments ("list" :: path :: arguments) =
              .ok ⟨none, .list ⟨path, none, some t, none, none⟩⟩ ↔
            t.nano = 0 ∧ 0 ≤ t.date.year) ∧
        ∀ arguments ∈ Flag.upper.spellings t.tableText,
          Invocation.ofArguments ("list" :: path :: arguments) =
              .ok ⟨none, .list ⟨path, none, none, some t, none⟩⟩ ↔
            t.nano = 0 ∧ 0 ≤ t.date.year :=
  ⟨readDateTime_tableText_eq_ok_iff t, readDateTime_tableText_of_nonneg,
    readDateTime_tableText_of_neg, fun _ hpath hhead =>
      ⟨fun _ h => isEnd_lower.ofArguments_iff hpath hhead t h,
        fun _ h => isEnd_upper.ofArguments_iff hpath hhead t h⟩⟩

/-- The midnight of a day in March of some year. -/
def idesOfMarch (year : Int) : DateTime :=
  .ofDate ((Date.ofFields? year 3 15).getD .min)

theorem tableText_isReadBack_march :
    ("ides.toml" ≠ "" ∧ "ides.toml".toList.head? ≠ some '-') ∧
      Invocation.ofArguments ["list", "ides.toml", "--from=0044-03-15 00:00:00"] =
        .ok ⟨none, .list ⟨"ides.toml", none, some (idesOfMarch 44), none, none⟩⟩ := by
  have hpath : "ides.toml" ≠ "" ∧ "ides.toml".toList.head? ≠ some '-' := by decide
  have harguments : ["--from=0044-03-15 00:00:00"] ∈
      Flag.lower.spellings (idesOfMarch 44).tableText := by decide +kernel
  exact ⟨hpath, (((tableText_isReadBack (idesOfMarch 44)).2.2.2 _ hpath.1 hpath.2).1 _
    harguments).2 (by decide +kernel)⟩

theorem idesOfMarch_isRefused :
    (idesOfMarch (-44)).nano = 0 ∧ (idesOfMarch (-44)).tableText = "-044-03-15 00:00:00" ∧
      readDateTime (idesOfMarch (-44)).tableText ≠ .ok (idesOfMarch (-44)) := by
  decide +kernel

end Command

end Recurrence
