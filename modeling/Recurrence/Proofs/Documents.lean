import Recurrence.Command.Run
import Recurrence.Proofs.Json
import Recurrence.Proofs.NormalForm

/-!
# Drafts that are read back

The document value of a draft is a table with the parts that are present (`parts`,
`toValue_eq`). Each part is written by one function and read by another that returns what
was written, and the key of a part finds that part and no other (`field?_written`); so a
draft comes back from its value whatever its parts are (`ofValue_toValue`), and from either
JSON text of it as well.

What is printed about a rule that has been checked is a text of its draft, and that draft
builds to the rule again.
-/

namespace Recurrence

/-! ## Writing and reading a part -/

namespace Value

/-- A reader returns what is written, and what is written is there. -/
def Returns (write : α → Value) (read : Value → Except DocumentError α) : Prop :=
  ∀ a, read (write a) = .ok a ∧ write a ≠ .null

theorem string_ne_null (content : String) : string content ≠ .null :=
  nofun

theorem returns_of {write : α → Value} {first : Value → Except DocumentError β}
    {second? : β → Option α} {content : α → β} (hfirst : ∀ a, first (write a) = .ok (content a))
    (hsecond : ∀ a, second? (content a) = some a) (hnull : ∀ a, write a ≠ .null) :
    Returns write (fun value => do let b ← first value; expect (second? b)) := by
  intro a
  refine ⟨?_, hnull a⟩
  show (do let b ← first (write a); expect (second? b)) = .ok a
  rw [hfirst]
  show expect (second? (content a)) = .ok a
  rw [hsecond]
  rfl

theorem returns_weekdayEntry :
    Returns (fun entry => string (WeekdayEntry.text entry)) asWeekdayEntry := by
  intro entry
  refine ⟨?_, string_ne_null _⟩
  have htext : asText (string entry.text) = .ok entry.text := rfl
  rw [asWeekdayEntry, htext]
  simp only [ok_bind, WeekdayEntry.ofText?_text]
  rfl

theorem returns_dateTime : Returns (fun t => string (DateTime.text t)) asDateTime :=
  returns_of (fun _ => rfl) DateTime.ofText?_text fun _ => string_ne_null _

theorem Returns.mapM {write : α → Value} {read : Value → Except DocumentError α}
    (h : Returns write read) (items : List α) : (items.map write).mapM read = .ok items := by
  induction items with
  | nil => rfl
  | cons a items ih => rw [List.map_cons, List.mapM_cons, (h a).1, ih]; rfl

end Value

namespace Draft

open Value

/-! ## The parts of a draft -/

/-- What stands for a list: nothing if it is empty. -/
def listPart (write : α → Value) : List α → Option Value
  | [] => none
  | a :: rest => some (.list ((a :: rest).map write))

/-- The entries of the parts that are there. -/
def written (parts : List (String × Option Value)) : List (String × Value) :=
  parts.filterMap fun (key, value?) => value?.map fun value => (key, value)

/-- The parts of a draft in the order of `keys`. -/
def parts (draft : Draft) : List (String × Option Value) :=
  let date := fun t => Value.string (DateTime.text t)
  let small := fun n => Value.integer (Int8.toInt n)
  let medium := fun n => Value.integer (Int16.toInt n)
  let large := fun n => Value.integer (UInt32.toNat n)
  [("frequency", some (.string draft.frequency.keyword)), ("anchor", some (date draft.anchor)),
    ("interval", draft.interval.map large), ("count", draft.count.map large),
    ("until", draft.bound.map date), ("by_month", listPart small draft.months),
    ("by_month_day", listPart small draft.monthDays),
    ("by_year_day", listPart medium draft.yearDays),
    ("by_week_no", listPart small draft.weekNumbers),
    ("by_weekday", listPart (fun entry => .string (WeekdayEntry.text entry)) draft.weekdays),
    ("by_hour", listPart small draft.hours), ("by_minute", listPart small draft.minutes),
    ("by_second", listPart small draft.seconds), ("by_set_pos", listPart medium draft.positions),
    ("week_start", draft.weekStart.map fun weekday => .string (Weekday.code weekday))]

theorem written_optional (key : String) (write : α → Value) (a? : Option α)
    (parts : List (String × Option Value)) :
    written ((key, a?.map write) :: parts) = optionalEntry key write a? ++ written parts := by
  cases a? <;> rfl

theorem written_list (key : String) (write : α → Value) (items : List α)
    (parts : List (String × Option Value)) :
    written ((key, listPart write items) :: parts) =
      listEntry key write items ++ written parts := by
  cases items <;> rfl

theorem toValue_eq (draft : Draft) : draft.toValue = .record (written draft.parts) := by
  have hsome : ∀ key value parts, written ((key, some value) :: parts) =
      [(key, value)] ++ written parts := fun _ _ _ => rfl
  have hnil : written [] = [] := rfl
  simp only [toValue, parts, hsome, hnil, written_optional, written_list, List.append_assoc,
    List.append_nil]
  rfl

theorem filter_written_eq_nil {parts : List (String × Option Value)} {key : String}
    (h : key ∉ parts.map Prod.fst) :
    ((written parts).map fun (key, value) => ((some key : Quoted), value)).filter
      (fun entry => entry.1 = some key) = [] := by
  rw [List.filter_eq_nil_iff]
  intro entry hentry
  obtain ⟨⟨key', value⟩, hmem, rfl⟩ := List.mem_map.1 hentry
  obtain ⟨⟨key'', value?⟩, hpart, hvalue⟩ := List.mem_filterMap.1 hmem
  obtain ⟨_, rfl, heq⟩ := Option.map_eq_some_iff.1 hvalue
  cases heq
  simp only [decide_eq_true_eq, Option.some.injEq]
  rintro rfl
  exact h (List.mem_map.2 ⟨_, hpart, rfl⟩)

/-- A key that stands for one part finds what is written for that part. -/
theorem field?_written {parts : List (String × Option Value)} (hkeys : (parts.map Prod.fst).Nodup)
    {index : Nat} {key : String} {value? : Option Value}
    (h : parts[index]? = some (key, value?)) :
    field? ((written parts).map fun (key, value) => (some key, value)) key = .ok value? := by
  suffices hfilter : ((written parts).map fun (key, value) => ((some key : Quoted), value)).filter
      (fun entry => entry.1 = some key) = (value?.map fun value => (some key, value)).toList by
    rw [field?, hfilter]
    cases value? <;> rfl
  induction parts generalizing index with
  | nil => cases h
  | cons part parts ih =>
      obtain ⟨key', value'?⟩ := part
      obtain ⟨hkey', hothers⟩ := List.nodup_cons.1 hkeys
      cases index with
      | zero =>
          cases h
          have hnil := filter_written_eq_nil hkey'
          cases value? with
          | none => exact hnil
          | some value =>
              exact (List.filter_cons_of_pos (by simp)).trans
                (congrArg ((some key, value) :: ·) hnil)
      | succ index =>
          have hne : key ≠ key' := by
            rintro rfl
            exact hkey' (List.mem_map.2 ⟨_, List.mem_of_getElem? h, rfl⟩)
          rw [List.getElem?_cons_succ] at h
          cases value'? with
          | none => exact ih hothers h
          | some value =>
              exact (List.filter_cons_of_neg (by simpa using hne.symm)).trans (ih hothers h)

/-! ## Reading a draft -/

/-- The entries of a draft's value. -/
def entries (draft : Draft) : List (Quoted × Value) :=
  (written draft.parts).map fun (key, value) => (some key, value)

theorem field?_entries (draft : Draft) (index : Nat) {key : String} {value? : Option Value}
    (h : draft.parts[index]? = some (key, value?)) : field? draft.entries key = .ok value? := by
  have hkeys : (draft.parts.map Prod.fst).Nodup := by
    show keys.Nodup
    decide
  exact field?_written hkeys h

section
variable (draft : Draft) (index : Nat) (key : String) {write : α → Value}
  {read : Value → Except DocumentError α}

theorem required_entries (hreturns : Returns write read) {a : α}
    (h : draft.parts[index]? = some (key, some (write a))) :
    required draft.entries key read = .ok a := by
  rw [required, field?_entries draft index h, ok_bind]
  exact (hreturns a).1

theorem optional_entries (hreturns : Returns write read) {a? : Option α}
    (h : draft.parts[index]? = some (key, a?.map write)) :
    Value.optional draft.entries key read = .ok a? := by
  rw [Value.optional, field?_entries draft index h, ok_bind]
  cases a? with
  | none => rfl
  | some a =>
      rw [Option.map_some]
      split
      next heq => cases heq
      next heq => exact absurd (Option.some.inj heq) (hreturns a).2
      next value _ heq =>
        obtain rfl := Option.some.inj heq
        rw [(hreturns a).1]
        rfl

theorem many_entries (hreturns : Returns write read) {items : List α}
    (h : draft.parts[index]? = some (key, listPart write items)) :
    many draft.entries key read = .ok items := by
  rw [many, field?_entries draft index h, ok_bind]
  cases items with
  | nil => rfl
  | cons a items => exact hreturns.mapM (a :: items)

end

theorem ofEntries_entries (format : DocumentFormat) (draft : Draft) :
    ofEntries format draft.entries = .ok draft := by
  have hfrequency : Returns (fun f => .string (Frequency.keyword f)) (asFrequency format) :=
    returns_of (fun _ => rfl) Frequency.ofKeyword?_keyword fun _ => string_ne_null _
  have hweekday : Returns (fun d => .string (Weekday.code d)) (asWeekday format) :=
    returns_of (fun _ => rfl) Weekday.ofCode?_code fun _ => string_ne_null _
  have hsmall : Returns (fun n => .integer (Int8.toInt n)) asInt8 :=
    returns_of (fun _ => rfl) toInt8?_toInt nofun
  have hmedium : Returns (fun n => .integer (Int16.toInt n)) asInt16 :=
    returns_of (fun _ => rfl) toInt16?_toInt nofun
  have hlarge : Returns (fun n => .integer (UInt32.toNat n)) asUInt32 :=
    returns_of (fun _ => rfl) toUInt32?_toNat nofun
  rw [ofEntries, required_entries draft 0 "frequency" hfrequency rfl,
    required_entries draft 1 "anchor" returns_dateTime rfl,
    optional_entries draft 2 "interval" hlarge rfl, optional_entries draft 3 "count" hlarge rfl,
    optional_entries draft 4 "until" returns_dateTime rfl,
    many_entries draft 5 "by_month" hsmall rfl, many_entries draft 6 "by_month_day" hsmall rfl,
    many_entries draft 7 "by_year_day" hmedium rfl, many_entries draft 8 "by_week_no" hsmall rfl,
    many_entries draft 9 "by_weekday" returns_weekdayEntry rfl,
    many_entries draft 10 "by_hour" hsmall rfl, many_entries draft 11 "by_minute" hsmall rfl,
    many_entries draft 12 "by_second" hsmall rfl, many_entries draft 13 "by_set_pos" hmedium rfl,
    optional_entries draft 14 "week_start" hweekday rfl]
  rfl

theorem ofValue_toValue (format : DocumentFormat) (draft : Draft) :
    ofValue format draft.toValue = .ok draft := by
  have hkeys : draft.entries.all fun entry => entry.1.isSome := by
    rw [List.all_eq_true]
    intro entry hentry
    obtain ⟨_, -, rfl⟩ := List.mem_map.1 hentry
    rfl
  rw [toValue_eq]
  exact (if_pos hkeys).trans (ofEntries_entries format draft)

/-! ## Texts of a draft -/

theorem plain_of_mem_parts (draft : Draft) :
    ∀ part ∈ draft.parts, ∀ value ∈ part.2, Json.Plain value := by
  have hoptional : ∀ {α : Type} {write : α → Value}, (∀ a, Json.Plain (write a)) →
      ∀ a? : Option α, ∀ value ∈ a?.map write, Json.Plain value := by
    intro α write hwrite a? value hvalue
    obtain ⟨a, -, rfl⟩ := Option.map_eq_some_iff.1 hvalue
    exact hwrite a
  have hlist : ∀ {α : Type} {write : α → Value}, (∀ a, Json.Plain (write a)) →
      ∀ items : List α, ∀ value ∈ listPart write items, Json.Plain value := by
    intro α write hwrite items value hvalue
    cases items with
    | nil => cases hvalue
    | cons a items =>
        cases hvalue
        refine .list fun item hitem => ?_
        obtain ⟨b, -, rfl⟩ := List.mem_map.1 hitem
        exact hwrite b
  have hstring : ∀ content value, value ∈ some (Value.string content) → Json.Plain value := by
    intro content value hvalue
    cases hvalue
    exact .string content
  simp only [parts, List.forall_mem_cons, List.not_mem_nil, false_imp_iff, implies_true, and_true]
  exact ⟨hstring _, hstring _, hoptional (fun _ => .integer _) _,
    hoptional (fun _ => .integer _) _, hoptional (fun _ => .string _) _,
    hlist (fun _ => .integer _) _, hlist (fun _ => .integer _) _, hlist (fun _ => .integer _) _,
    hlist (fun _ => .integer _) _, hlist (fun _ => .string _) _, hlist (fun _ => .integer _) _,
    hlist (fun _ => .integer _) _, hlist (fun _ => .integer _) _, hlist (fun _ => .integer _) _,
    hoptional (fun _ => .string _) _⟩

theorem plain_toValue (draft : Draft) : Json.Plain draft.toValue := by
  rw [toValue_eq]
  refine .table fun entry hentry => ?_
  obtain ⟨part, hpart, hvalue⟩ := List.mem_filterMap.1 hentry
  obtain ⟨value, hmem, rfl⟩ := Option.map_eq_some_iff.1 hvalue
  exact plain_of_mem_parts draft part hpart value hmem

theorem ofValue_layout (draft : Draft) {text : String}
    (htext : text = Json.render draft.toValue ∨ text = Json.renderIndented draft.toValue)
    {blanks : List Char} (hblanks : Json.Blanks blanks) :
    (Json.read? (text ++ String.ofList blanks)).map (ofValue .json) = some (.ok draft) := by
  rw [Json.read?_layout draft.plain_toValue htext hblanks, Option.map_some, ofValue_toValue]

end Draft

namespace Command

theorem readRule_builds {surroundings : Surroundings} {path : String} {rule : Rule}
    (h : surroundings.readRule path = .ok rule) : ∃ draft : Draft, draft.build = .ok rule := by
  unfold Surroundings.readRule at h
  split at h
  next => cases h
  next =>
    split at h
    next => cases h
    next => cases h
    next draft _ =>
      split at h
      next => cases h
      next hbuild =>
        cases h
        exact ⟨draft, hbuild⟩

theorem run_check_json {config : Option String} {path printed : String}
    {format : Option OutputFormat} {surroundings : Surroundings}
    (h : Invocation.run ⟨config, .check ⟨path, format⟩⟩ surroundings = .ok printed) :
    ∃ rule, surroundings.readRule path = .ok rule ∧
      Invocation.run ⟨config, .check ⟨path, some .json⟩⟩ surroundings = .ok (ruleJson rule) := by
  obtain ⟨settings, hsettings, h⟩ := bind_eq_ok_iff.1 h
  obtain ⟨rule, hrule, -⟩ := bind_eq_ok_iff.1 h
  replace hrule : surroundings.readRule path = .ok rule := hrule
  have hpath : (Request.check ⟨path, some .json⟩).path = path := rfl
  refine ⟨rule, hrule, ?_⟩
  rw [Invocation.run, hsettings, ok_bind, hpath, hrule]
  rfl

/-- Every draft comes back from its JSON texts, be it a rule or not; and of a rule file that
passes the check the text that is then printed gives the rule of that file again. -/
theorem drafts_reread :
    (∀ (draft : Draft) (text : String),
      text = Json.render draft.toValue ∨ text = Json.renderIndented draft.toValue →
        (Json.read? text).map (Draft.ofValue .json) = some (.ok draft)) ∧
    ∀ (config : Option String) (path printed : String) (format : Option OutputFormat)
      (surroundings : Surroundings),
      Invocation.run ⟨config, .check ⟨path, format⟩⟩ surroundings = .ok printed →
        ∃ text rule draft again,
          Invocation.run ⟨config, .check ⟨path, some .json⟩⟩ surroundings = .ok text ∧
          surroundings.readRule path = .ok rule ∧
          (Json.read? text).map (Draft.ofValue .json) = some (.ok draft) ∧
          draft.build = .ok again ∧ again = rule ∧ again.cursor.toList = rule.cursor.toList := by
  constructor
  · intro draft text htext
    have hread := draft.ofValue_layout htext Json.blanks_nil
    rwa [String.ofList_nil, String.append_empty] at hread
  · intro config path printed format surroundings h
    obtain ⟨rule, hrule, hrun⟩ := run_check_json h
    obtain ⟨draft, hbuild⟩ := readRule_builds hrule
    have hread := rule.draft.ofValue_layout (Or.inr rfl) (Json.blanks_newLine 0)
    exact ⟨ruleJson rule, rule, rule.draft, rule, hrun, hrule, hread, Draft.build_draft hbuild,
      rfl, rfl⟩

/-- A place with one rule file, of a meeting on two days of the week. -/
def standup : Surroundings where
  configFile := none
  configFolder := none
  home := "/home"
  read := fun path =>
    if path = "standup.toml" then
      .ok ("frequency = \"weekly\"\nanchor = \"2024-01-01T09:30:00.5\"\n" ++
        "by_weekday = [\"FR\", \"TU\", \"0TU\"]\n")
    else .error .missing
  painted := false

/-- What is printed of that file: its days are in order, and half a second is gone. -/
def standupText : String :=
  "\x7b\n  \"frequency\": \"weekly\",\n  \"anchor\": \"2024-01-01T09:30:00\",\n" ++
    "  \"interval\": 1,\n  \"by_weekday\": [\n    \"TU\",\n    \"FR\"\n  ],\n" ++
    "  \"week_start\": \"MO\"\n\x7d\n"

theorem run_standup :
    Invocation.run ⟨none, .check ⟨"standup.toml", some .json⟩⟩ standup = .ok standupText := by
  decide +kernel

theorem drafts_reread_standup :
    ∃ rule draft, standup.readRule "standup.toml" = .ok rule ∧
      (Json.read? standupText).map (Draft.ofValue .json) = some (.ok draft) ∧
      draft.build = .ok rule := by
  obtain ⟨text, rule, draft, _, hrun, hrule, hread, hbuild, rfl, -⟩ :=
    drafts_reread.2 none "standup.toml" standupText (some .json) standup run_standup
  cases run_standup.symm.trans hrun
  exact ⟨_, draft, hrule, hread, hbuild⟩

end Command

end Recurrence
