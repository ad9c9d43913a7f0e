import Recurrence.Command.Invocation
import Recurrence.Command.Table
import Recurrence.Document.Draft
import Recurrence.Document.Json.Printer
import Recurrence.Occurrences.Query

/-!
# Reports

What the commands print about a rule. `select` picks the occurrences of a window and
tells whether there are more than were asked for; it looks for one more than that, which is
never more than a size may be, and no further. `summary` is the rule in normal form, a row
for everything that is set.
-/

namespace Recurrence

/--
The first `max` occurrences that are neither before `lower` nor after `upper`, and whether
more would follow.
-/
def Rule.select (rule : Rule) (lower upper : Option DateTime) (max : Nat) :
    Except Fault (List DateTime × Bool) := do
  let found ← rule.window lower upper (min (max + 1) Command.maxSize)
  return (found.take max, decide (max < found.length))

namespace Command

/-- The columns of a list of numbered occurrences. -/
def occurrenceColumns : List (Column (Nat × DateTime)) :=
  [{ cell := fun (number, _) => '#' :: Text.unsigned number
     alignment := .right
     paint := fun _ => some .brightBlack },
   { cell := fun (_, t) => t.tableChars
     alignment := .left
     paint := fun _ => none },
   { cell := fun (_, t) => t.date.weekday.abbreviation.toList
     alignment := .left
     paint := fun (_, t) => if t.date.weekday.isWeekend then some .yellow else none }]

/-- Occurrences with their numbers, from one. -/
def numbered (occurrences : List DateTime) : List (Nat × DateTime) :=
  occurrences.zipIdx.map fun (t, index) => (index + 1, t)

/-- The JSON text of some occurrences. -/
def occurrencesJson (occurrences : List DateTime) : String :=
  Json.renderIndented (.list (occurrences.map fun t => .string t.text)) ++ "\n"

/-- The table of some occurrences, and a note below if `max` of them were cut off unasked. -/
def occurrencesTable (painted : Bool) (occurrences : List DateTime) (cutAt : Option Nat) : String :=
  if occurrences.isEmpty then
    String.ofList (Paint.italic.apply painted "No occurrences found".toList ++ ['\n'])
  else
    let note := match cutAt with
      | some max =>
          Paint.italic.apply painted s!"Displaying the first {max} occurrences".toList ++ ['\n']
      | none => []
    String.ofList (Table.render painted occurrenceColumns (numbered occurrences) ++ note)

/-- What `list` prints. -/
def listReport (painted : Bool) (settings : Settings) (listing : Listing) (rule : Rule) :
    Except Fault String := do
  let max := listing.count.getD settings.maxOccurrences
  let (occurrences, isCut) ← rule.select listing.lower listing.upper max
  match listing.outputFormat.getD settings.outputFormat with
  | .json => return occurrencesJson occurrences
  | .table =>
      let cutAt := if isCut && listing.count.isNone then some max else none
      return occurrencesTable painted occurrences cutAt

/-- Values between commas. -/
def commaSeparated (values : List (List Char)) : List Char :=
  [','].intercalate values

/-- The row of a list of numbers, if there are any. -/
def numbersRow (name : String) (numbers : List Int) : List (String × List Char) :=
  if numbers.isEmpty then [] else [(name, commaSeparated (numbers.map Text.signed))]

/-- The rows of a rule: each thing that is set, and its first occurrence. -/
def summary (rule : Rule) : Except Fault (List (String × List Char)) := do
  let (first, _) ← rule.cursor.next
  let limit := match rule.limit with
    | some (.count count) => ("count", Text.unsigned count.toNat)
    | some (.bound bound) => ("until", bound.tableChars)
    | none => ("limit", "none".toList)
  let weekdays := if rule.weekdays.isEmpty then []
    else [("by_weekday", commaSeparated (rule.weekdays.map WeekdayEntry.chars))]
  let always :=
    [("frequency", rule.frequency.name.toList),
     ("interval", Text.unsigned rule.interval.toNat),
     ("anchor", rule.anchor.tableChars),
     limit]
  return always ++
    numbersRow "by_month" (rule.months.map Int8.toInt) ++
    numbersRow "by_month_day" (rule.monthDays.map Int8.toInt) ++
    numbersRow "by_year_day" (rule.yearDays.map Int16.toInt) ++
    numbersRow "by_week_no" (rule.weekNumbers.map Int8.toInt) ++
    weekdays ++
    numbersRow "by_hour" (rule.hours.map Int8.toInt) ++
    numbersRow "by_minute" (rule.minutes.map Int8.toInt) ++
    numbersRow "by_second" (rule.seconds.map Int8.toInt) ++
    numbersRow "by_set_pos" (rule.positions.map Int16.toInt) ++
    [("week_start", rule.weekStart.code.toList),
     ("first", (first.map DateTime.tableChars).getD "none".toList)]

/-- The columns of a summary. -/
def summaryColumns : List (Column (String × List Char)) :=
  [{ cell := fun (name, _) => name.toList
     alignment := .left
     paint := fun _ => some .cyan },
   { cell := fun (_, value) => value
     alignment := .left
     paint := fun _ => none }]

/-- The JSON text of a rule in normal form. -/
def ruleJson (rule : Rule) : String :=
  Json.renderIndented rule.draft.toValue ++ "\n"

/-- What `check` prints. -/
def checkReport (painted : Bool) (settings : Settings) (checking : Checking) (rule : Rule) :
    Except Fault String := do
  match checking.outputFormat.getD settings.outputFormat with
  | .json => return ruleJson rule
  | .table => do
      let rows ← summary rule
      let heading :=
        Paint.green.apply painted "Valid rule:".toList ++ ' ' :: checking.path.toList ++ ['\n']
      return String.ofList (heading ++ Table.render painted summaryColumns rows)

end Command

end Recurrence
