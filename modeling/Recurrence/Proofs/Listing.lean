import Recurrence.Command.Run
import Recurrence.Proofs.Calls
import Recurrence.Proofs.Documents
import Recurrence.Proofs.Queries
import Recurrence.Proofs.Rows
import Recurrence.Proofs.Safety

/-!
# What a listing shows

The window of a listing is taken of all occurrences of a rule, and of the window the first
ones, as many as are asked for (`Rule.select_eq`). The search stops early and looks for at
most as many as a size may be, which a rule never has (`Rule.length_occurrences_lt`).

What is printed of the selection is a text in lines. `visible` is what a terminal shows of it,
and that is the same with colors and without them (`visible_occurrencesTable`): a row for each
occurrence, which names it (`IsRow`), and perhaps a note below. The other format is an array
that is read back.
-/

namespace Recurrence

open Command

/-! ## The selection -/

namespace Command.Listing

variable {listing : Listing}

/-- A date-time lies in the window of a listing. An end that is not given bounds nothing. -/
def Includes (listing : Listing) (t : DateTime) : Prop :=
  (∀ lower ∈ listing.lower, lower ≤ t) ∧ ∀ upper ∈ listing.upper, t ≤ upper

instance (listing : Listing) : DecidablePred listing.Includes :=
  fun _ => inferInstanceAs (Decidable (_ ∧ _))

/-- Those of all occurrences that lie in the window of a listing. -/
def within (listing : Listing) (all : List DateTime) : List DateTime :=
  all.filter listing.Includes

/-- The most occurrences that a listing shows. -/
def atMost (listing : Listing) (settings : Settings) : Nat :=
  listing.count.getD settings.maxOccurrences

/-- The occurrences that a listing shows. -/
def shown (listing : Listing) (settings : Settings) (all : List DateTime) : List DateTime :=
  (listing.within all).take (listing.atMost settings)

theorem includes_iff (t : DateTime) :
    listing.Includes t ↔ (isUpTo listing.upper t && isFrom listing.lower t) = true := by
  have hlower : (∀ lower ∈ listing.lower, lower ≤ t) ↔ isFrom listing.lower t = true := by
    cases listing.lower <;> simp [isFrom]
  have hupper : (∀ upper ∈ listing.upper, t ≤ upper) ↔ isUpTo listing.upper t = true := by
    cases listing.upper <;> simp [isUpTo]
  rw [Includes, hlower, hupper, Bool.and_eq_true, and_comm]

theorem within_eq (all : List DateTime) :
    listing.within all =
      all.filter fun t => isUpTo listing.upper t && isFrom listing.lower t :=
  List.filter_congr fun t _ => Bool.eq_iff_iff.2 (decide_eq_true_iff.trans (includes_iff t))

end Command.Listing

theorem Rule.select_eq {rule : Rule} (hrule : rule.Valid) (listing : Listing) (max : Nat) :
    rule.select listing.lower listing.upper max =
      .ok ((listing.within rule.occurrences).take max,
        decide (max < (listing.within rule.occurrences).length)) := by
  -- The search never runs into the limit of a size: no rule has that many occurrences.
  have hlength : (listing.within rule.occurrences).length < maxSize :=
    lt_of_le_of_lt (List.length_filter_le _ _)
      ((length_occurrences_lt hrule).trans (by decide))
  rw [select, window_eq hrule, ← Listing.within_eq, ok_bind, List.take_take, List.length_take]
  have htake : (listing.within rule.occurrences).take (min max (min (max + 1) maxSize)) =
      (listing.within rule.occurrences).take max := by
    rw [List.take_eq_take_iff]
    omega
  have hcut : max < min (min (max + 1) maxSize) (listing.within rule.occurrences).length ↔
      max < (listing.within rule.occurrences).length := by
    omega
  rw [htake, decide_eq_decide.2 hcut]
  rfl

namespace Command

/-! ## What is printed -/

/-- What a terminal shows of a text: all but the control sequences, if it is painted. -/
def visible (painted : Bool) (text : String) : List Char :=
  if painted then Paint.plain text.toList else text.toList

/-- The note below the rows that occurrences were cut off. -/
def note (max : Nat) : List Char :=
  s!"Displaying the first {max} occurrences".toList

/-- A text is seen as a table of occurrences: a line for the row of each one, numbered from one,
and then the lines of some notes. -/
def ShowsTable (painted : Bool) (occurrences : List DateTime) (notes : List (List Char))
    (text : String) : Prop :=
  ∃ rows,
    List.Forall₂ (fun row entry => IsRow entry.2 entry.1 row) rows (occurrences.zipIdx 1) ∧
    (visible painted text).splitOn '\n' = rows ++ notes ++ [[]]

/-- A text is an array of occurrences, and they are read back from it. -/
def ShowsArray (occurrences : List DateTime) (text : String) : Prop :=
  ∃ items, items = occurrences.map (fun t => Value.string t.text) ∧
    Json.read? text = some (.list items) ∧ items.mapM Value.asDateTime = .ok occurrences

theorem control_notMem_note {c : Char} (hc : c.toNat < 32) (max : Nat) : c ∉ note max := by
  have hfront : c ∉ "Displaying the first ".toList := control_notMem hc (by decide)
  have hback : c ∉ " occurrences".toList := control_notMem hc (by decide)
  have hmax : (toString max).toList = Text.unsigned max := Nat.toList_repr
  rw [note, String.toList_append, String.toList_append, List.mem_append, List.mem_append]
  rintro ((h | h) | h)
  · exact hfront h
  · exact control_notMem_unsigned hc max (hmax ▸ h)
  · exact hback h

/-- Painted or not, what is seen is the table without colors and the note below. -/
theorem visible_occurrencesTable (painted : Bool) {occurrences : List DateTime}
    (hne : occurrences ≠ []) (cutAt : Option Nat) :
    visible painted (occurrencesTable painted occurrences cutAt) =
      Table.render false occurrenceColumns (numbered occurrences) ++
        (cutAt.toList.map note).flatMap (· ++ ['\n']) := by
  have htext : (occurrencesTable painted occurrences cutAt).toList =
      Table.render painted occurrenceColumns (numbered occurrences) ++
        cutAt.toList.flatMap fun max => Paint.italic.apply painted (note max) ++ ['\n'] := by
    rw [occurrencesTable.eq_def, if_neg (by simpa using hne), String.toList_ofList]
    cases cutAt with
    | none => rfl
    | some max => simp only [Option.toList_some, List.flatMap_singleton]; rfl
  have hescape : Paint.escape.toNat < 32 := by decide
  unfold visible
  rw [htext]
  cases painted with
  | false => cases cutAt <;> rfl
  | true =>
      have hcells : ∀ entry ∈ numbered occurrences, ∀ column ∈ occurrenceColumns,
          Paint.Unpainted (column.cell entry) := fun entry _ column hcolumn =>
        Paint.unpainted_of_notMem (control_notMem_cell hescape entry column hcolumn)
      rw [if_pos rfl, Table.plain_render_append hcells]
      cases cutAt with
      | none => rw [Option.toList_none, List.flatMap_nil, Paint.plain_nil]; rfl
      | some max =>
          have hnote := Paint.unpainted_of_notMem (control_notMem_note hescape max)
          rw [Option.toList_some, List.flatMap_singleton, Paint.plain_apply .italic hnote.stays,
            Paint.plain_cons_of_ne (by decide), Paint.plain_nil, List.map_singleton,
            List.flatMap_singleton]

theorem showsTable_occurrencesTable (painted : Bool) {occurrences : List DateTime}
    (hne : occurrences ≠ []) (cutAt : Option Nat) :
    ShowsTable painted occurrences (cutAt.toList.map note)
      (occurrencesTable painted occurrences cutAt) := by
  obtain ⟨rows, hlines, hends, hrows⟩ := exists_rows (numbered occurrences)
  have hnumbered : numbered occurrences = (occurrences.zipIdx 1).map Prod.swap := by
    rw [numbered, List.zipIdx_succ, List.map_map]
    rfl
  have hallEnds : ∀ line ∈ rows ++ cutAt.toList.map note, '\n' ∉ line := by
    intro line hline
    rcases List.mem_append.1 hline with h | h
    · exact hends line h
    · obtain ⟨max, -, rfl⟩ := List.mem_map.1 h
      exact control_notMem_note (by decide) max
  rw [hnumbered, List.forall₂_map_left_iff] at hrows
  refine ⟨rows, hrows.flip, ?_⟩
  rw [visible_occurrencesTable painted hne, hlines, ← List.flatMap_append,
    splitOn_endedLines hallEnds]

/-- The rows tell which occurrences they are of, and the other lines are the same notes. -/
theorem ShowsTable.unique {painted : Bool} {occurrences others : List DateTime}
    {notes : List (List Char)} {text : String} (h : ShowsTable painted occurrences notes text)
    (h' : ShowsTable painted others notes text) :
    occurrences.map DateTime.wholeSecond = others.map DateTime.wholeSecond := by
  obtain ⟨rows, hrows, hlines⟩ := h
  obtain ⟨rows', hrows', hlines'⟩ := h'
  obtain rfl : rows = rows' :=
    List.append_cancel_right (List.append_cancel_right (hlines.symm.trans hlines'))
  have hmap : ∀ listed : List DateTime, (listed.zipIdx 1).map (fun entry => entry.1.wholeSecond) =
      listed.map DateTime.wholeSecond := by
    intro listed
    have hentries := congrArg (List.map DateTime.wholeSecond) (List.zipIdx_map_fst 1 listed)
    rw [List.map_map] at hentries
    exact hentries
  rw [← hmap, ← hmap, wholeSeconds_of_rows hrows hrows']

theorem ShowsArray.unique {occurrences others : List DateTime} {text : String}
    (h : ShowsArray occurrences text) (h' : ShowsArray others text) : occurrences = others := by
  obtain ⟨items, -, hread, hitems⟩ := h
  obtain ⟨items', -, hread', hitems'⟩ := h'
  rw [hread, Option.some_inj, Value.list.injEq] at hread'
  rw [← hread', hitems, Except.ok.injEq] at hitems'
  exact hitems'

theorem showsArray_occurrencesJson (occurrences : List DateTime) :
    ShowsArray occurrences (occurrencesJson occurrences) := by
  have hplain : Json.Plain (.list (occurrences.map fun t => .string t.text)) := by
    refine .list fun item hitem => ?_
    obtain ⟨t, -, rfl⟩ := List.mem_map.1 hitem
    exact .string _
  exact ⟨_, rfl, Json.read?_layout hplain (Or.inr rfl) (Json.blanks_newLine 0),
    Value.returns_dateTime.mapM occurrences⟩

/-- The notes of a listing: one, where the settings and not the command line cut off some of
the window. -/
def Listing.notes (listing : Listing) (settings : Settings) (all : List DateTime) :
    List (List Char) :=
  if listing.count = none ∧ listing.atMost settings < (listing.within all).length then
    [note (listing.atMost settings)]
  else []

theorem Listing.notes_eq (listing : Listing) (settings : Settings) (all : List DateTime) :
    listing.notes settings all =
      (if decide (listing.atMost settings < (listing.within all).length) &&
        listing.count.isNone then some (listing.atMost settings) else none).toList.map note := by
  simp only [notes, Bool.and_eq_true, decide_eq_true_eq, Option.isNone_iff_eq_none, and_comm]
  split <;> rfl

/-- A text shows occurrences in the format that is asked for, in a table above some notes. -/
def Listing.Shows (listing : Listing) (painted : Bool) (settings : Settings)
    (notes : List (List Char)) (occurrences : List DateTime) (text : String) : Prop :=
  match listing.outputFormat.getD settings.outputFormat with
  | .table => ShowsTable painted occurrences notes text
  | .json => ShowsArray occurrences text

/-- What a text shows is known from the text, to the second. -/
theorem Listing.Shows.unique {listing : Listing} {painted : Bool} {settings : Settings}
    {notes : List (List Char)} {occurrences others : List DateTime} {text : String}
    (h : listing.Shows painted settings notes occurrences text)
    (h' : listing.Shows painted settings notes others text) :
    occurrences.map DateTime.wholeSecond = others.map DateTime.wholeSecond := by
  unfold Shows at h h'
  generalize listing.outputFormat.getD settings.outputFormat = format at h h'
  cases format with
  | table => exact h.unique h'
  | json => rw [h.unique h']

theorem exists_listReport {rule : Rule} (hrule : rule.Valid) (listing : Listing) (painted : Bool)
    (settings : Settings) (hne : listing.shown settings rule.occurrences ≠ []) :
    ∃ text, listReport painted settings listing rule = .ok text ∧
      listing.Shows painted settings (listing.notes settings rule.occurrences)
        (listing.shown settings rule.occurrences) text := by
  rw [listReport]
  simp only [Rule.select_eq hrule, ok_bind, Listing.Shows]
  cases listing.outputFormat.getD settings.outputFormat with
  | json => exact ⟨_, rfl, showsArray_occurrencesJson _⟩
  | table =>
      rw [Listing.notes_eq]
      exact ⟨_, rfl, showsTable_occurrencesTable painted hne _⟩

theorem run_list {config : Option String} {listing : Listing} {surroundings : Surroundings}
    {settings : Settings} {rule : Rule} {text : String}
    (hsettings : surroundings.settings config = .ok settings)
    (hrule : surroundings.readRule listing.path = .ok rule)
    (hreport : listReport surroundings.painted settings listing rule = .ok text) :
    Invocation.run ⟨config, .list listing⟩ surroundings = .ok text := by
  have hpath : (Request.list listing).path = listing.path := rfl
  rw [Invocation.run, hsettings, ok_bind, hpath, hrule, ok_bind]
  simp only [hreport]
  rfl

/-- A listing shows exactly its window. The selection is the first occurrences in it, as many as
are asked for, and it is known whether there are more; whatever is selected, and nothing else, can
be read in what is printed, in its order, each occurrence in a numbered row or as an entry of an
array, and that rows are missing is noted unless their number was asked for. -/
theorem listing_shows_window {draft : Draft} {rule : Rule} (hbuild : draft.build = .ok rule) :
    ∃ all, rule.cursor.toList = .ok all ∧ ∀ listing : Listing,
      (∀ max, rule.select listing.lower listing.upper max =
        .ok ((listing.within all).take max, decide (max < (listing.within all).length))) ∧
      ∀ settings painted, listing.shown settings all ≠ [] →
        ∃ text, listReport painted settings listing rule = .ok text ∧
          listing.Shows painted settings (listing.notes settings all)
            (listing.shown settings all) text ∧
          (∀ others, listing.Shows painted settings (listing.notes settings all) others text →
            others.map DateTime.wholeSecond = listing.shown settings all) ∧
          ∀ config surroundings, surroundings.painted = painted →
            surroundings.settings config = .ok settings →
            surroundings.readRule listing.path = .ok rule →
              Invocation.run ⟨config, .list listing⟩ surroundings = .ok text := by
  have hrule := valid_of_build hbuild
  refine ⟨rule.occurrences, Rule.toList_cursor hrule, fun listing =>
    ⟨Rule.select_eq hrule listing, fun settings painted hne => ?_⟩⟩
  obtain ⟨text, hreport, hshows⟩ := exists_listReport hrule listing painted settings hne
  refine ⟨text, hreport, hshows, fun others hothers => ?_, ?_⟩
  · rw [← hshows.unique hothers, List.map_congr_left, List.map_id]
    intro t ht
    have hall := List.mem_of_mem_filter (List.mem_of_mem_take ht)
    exact DateTime.ext_fields rfl (Rule.nano_of_mem_occurrences hrule hall).symm
  · rintro config surroundings rfl hsettings hread
    exact run_list hsettings hread hreport

/-- The midnight of a day in January 2024. -/
def january (day : Nat) : DateTime :=
  .ofDate ((Date.ofFields? 2024 1 day).getD .min)

/-- Five days in a row, the first two a weekend. -/
def fiveDays : Rule where
  frequency := .daily
  interval := 1
  interval_pos := Nat.one_pos
  anchor := january 6
  limit := some (.count 5)
  months := []
  monthDays := []
  yearDays := []
  weekNumbers := []
  weekdays := []
  hours := []
  minutes := []
  seconds := []
  positions := []
  weekStart := .monday

theorem build_fiveDays : fiveDays.draft.build = .ok fiveDays := rfl

/-- The occurrences of that rule. -/
def fiveMidnights : List DateTime :=
  [january 6, january 7, january 8, january 9, january 10]

theorem toList_fiveDays : fiveDays.cursor.toList = .ok fiveMidnights := by
  have hall : fiveDays.cursor.toListWithin 12 = some fiveMidnights := by decide +kernel
  exact Cursor.toList_of_toListWithin (Rule.ready_cursor (valid_of_build build_fiveDays)) hall

/-- A place with that rule, with settings for two occurrences, and with colors. -/
def twoAtMost : Surroundings where
  configFile := some "config.toml"
  configFolder := none
  home := "/home"
  read := fun path =>
    if path = "config.toml" then .ok "max_occurrences = 2\n"
    else if path = "days.toml" then
      .ok "frequency = \"daily\"\nanchor = \"2024-01-06\"\ncount = 5\n"
    else .error .missing
  painted := true

/-- A listing of the three days in the middle, of which the settings admit two. -/
def middleListing : Listing where
  path := "days.toml"
  count := none
  lower := some (january 7)
  upper := some (january 9)
  outputFormat := none

theorem settings_twoAtMost : twoAtMost.settings none = .ok ⟨2, .table⟩ := by
  decide +kernel

theorem readRule_twoAtMost : twoAtMost.readRule "days.toml" = .ok fiveDays := by
  decide +kernel

theorem listing_shows_window_twoAtMost :
    fiveDays.draft.build = .ok fiveDays ∧
      fiveDays.select (some (january 7)) (some (january 9)) 2 =
        .ok ([january 7, january 8], true) ∧
      ∃ text, Invocation.run ⟨none, .list middleListing⟩ twoAtMost = .ok text ∧
        ShowsTable true [january 7, january 8] [note 2] text := by
  obtain ⟨all, hall, hlisting⟩ := listing_shows_window build_fiveDays
  obtain rfl := Except.ok.inj (toList_fiveDays.symm.trans hall)
  have hwithin : middleListing.within fiveMidnights = [january 7, january 8, january 9] := by
    decide +kernel
  have hshown : middleListing.shown ⟨2, .table⟩ fiveMidnights = [january 7, january 8] := by
    rw [Listing.shown, hwithin]
    rfl
  have hnotes : middleListing.notes ⟨2, .table⟩ fiveMidnights = [note 2] := by
    rw [Listing.notes, hwithin]
    rfl
  obtain ⟨hselect, hprints⟩ := hlisting middleListing
  have hselected := hselect 2
  rw [hwithin] at hselected
  obtain ⟨text, -, hshows, -, hrun⟩ := hprints ⟨2, .table⟩ true (hshown ▸ List.cons_ne_nil _ _)
  change ShowsTable true (middleListing.shown _ _) (middleListing.notes _ _) text at hshows
  rw [hshown, hnotes] at hshows
  exact ⟨build_fiveDays, hselected, text,
    hrun none twoAtMost rfl settings_twoAtMost readRule_twoAtMost, hshows⟩

end Command

end Recurrence
