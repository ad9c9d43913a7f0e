import Recurrence.Document.Value
import Recurrence.Rule.Draft
import Recurrence.Rule.Error
import Recurrence.Text.DateTime

/-!
# Drafts in documents

How a draft is laid out as a document value: a table with one entry for each part of
the draft that is present. `Draft.ofValue` reads such a table. It passes over entries
it does not know, takes a missing list for an empty one, and accepts the absent value
for the parts that may be missing, but not for lists. A part that is given twice is
refused, and so is a number that is not written as a whole one or does not fit. A
frequency or weekday may also be given as the only key of a table; what has to stand
under that key depends on the notation, see `Value.word?`.

The parts may also be given without their names, as a list in the order of
`Draft.keys`, of which the end may be missing.
-/

namespace Recurrence

/-- Why a document value is no draft. -/
inductive DocumentError where
  /-- Its form is wrong. -/
  | malformed
  /-- One of its weekday entries cannot be read. -/
  | weekday (error : RuleError)
deriving DecidableEq

namespace Value

/-- A value that has been read, or the complaint that it has a wrong form. -/
def expect (read : Option α) : Except DocumentError α :=
  match read with
  | some a => .ok a
  | none => .error .malformed

/-- The value of the only entry with a key, if there is one. -/
def field? (entries : List (Quoted × Value)) (key : String) :
    Except DocumentError (Option Value) :=
  match entries.filter fun entry => entry.1 = some key with
  | [] => .ok none
  | [(_, value)] => .ok (some value)
  | _ => .error .malformed

/-- Reads an entry that must be there. -/
def required (entries : List (Quoted × Value)) (key : String)
    (read : Value → Except DocumentError α) : Except DocumentError α := do
  match ← field? entries key with
  | some value => read value
  | none => .error .malformed

/-- Reads an entry that may be missing or absent. -/
def optional (entries : List (Quoted × Value)) (key : String)
    (read : Value → Except DocumentError α) : Except DocumentError (Option α) := do
  match ← field? entries key with
  | none | some .null => return none
  | some value => do
      let a ← read value
      return some a

/-- Reads an entry with a list of values; a missing list is empty. -/
def many (entries : List (Quoted × Value)) (key : String)
    (read : Value → Except DocumentError α) : Except DocumentError (List α) := do
  match ← field? entries key with
  | none => return []
  | some (.list items) => items.mapM read
  | some _ => .error .malformed

/-- Reads the content of a string. -/
def asText : Value → Except DocumentError String
  | .text (some content) => .ok content
  | _ => .error .malformed

/-- Reads a whole number. -/
def asInteger : Value → Except DocumentError Int
  | .integer value => .ok value
  | _ => .error .malformed

/-- Reads a signed number of eight bits. -/
def asInt8 (value : Value) : Except DocumentError Int8 := do
  let number ← value.asInteger
  expect (toInt8? number)

/-- Reads a signed number of sixteen bits. -/
def asInt16 (value : Value) : Except DocumentError Int16 := do
  let number ← value.asInteger
  expect (toInt16? number)

/-- Reads an unsigned number of thirty-two bits. -/
def asUInt32 (value : Value) : Except DocumentError UInt32 := do
  let number ← value.asInteger
  expect (toUInt32? number)

/-- Reads a date-time from a string. -/
def asDateTime (value : Value) : Except DocumentError DateTime := do
  let text ← value.asText
  expect (DateTime.ofText? text)

/-- Reads a frequency from its keyword. -/
def asFrequency (format : DocumentFormat) (value : Value) : Except DocumentError Frequency := do
  let word ← expect (value.word? format)
  expect (Frequency.ofKeyword? word)

/-- Reads a weekday from its code. -/
def asWeekday (format : DocumentFormat) (value : Value) : Except DocumentError Weekday := do
  let word ← expect (value.word? format)
  expect (Weekday.ofCode? word)

/-- Reads a weekday entry from a string; a failure tells which string it was. -/
def asWeekdayEntry (value : Value) : Except DocumentError WeekdayEntry := do
  let text ← value.asText
  match WeekdayEntry.ofText? text with
  | some entry => return entry
  | none => .error (.weekday (.invalidWeekday text))

end Value

namespace Draft

/-- The names of the parts of a draft, in order. -/
def keys : List String :=
  ["frequency", "anchor", "interval", "count", "until", "by_month", "by_month_day",
    "by_year_day", "by_week_no", "by_weekday", "by_hour", "by_minute", "by_second",
    "by_set_pos", "week_start"]

/-- Reads a draft from the entries of a table. -/
def ofEntries (format : DocumentFormat) (entries : List (Quoted × Value)) :
    Except DocumentError Draft := do
  let frequency ← Value.required entries "frequency" (Value.asFrequency format)
  let anchor ← Value.required entries "anchor" Value.asDateTime
  let interval ← Value.optional entries "interval" Value.asUInt32
  let count ← Value.optional entries "count" Value.asUInt32
  let bound ← Value.optional entries "until" Value.asDateTime
  let months ← Value.many entries "by_month" Value.asInt8
  let monthDays ← Value.many entries "by_month_day" Value.asInt8
  let yearDays ← Value.many entries "by_year_day" Value.asInt16
  let weekNumbers ← Value.many entries "by_week_no" Value.asInt8
  let weekdays ← Value.many entries "by_weekday" Value.asWeekdayEntry
  let hours ← Value.many entries "by_hour" Value.asInt8
  let minutes ← Value.many entries "by_minute" Value.asInt8
  let seconds ← Value.many entries "by_second" Value.asInt8
  let positions ← Value.many entries "by_set_pos" Value.asInt16
  let weekStart ← Value.optional entries "week_start" (Value.asWeekday format)
  return {
    frequency, anchor, interval, count, bound, months, monthDays, yearDays, weekNumbers,
    weekdays, hours, minutes, seconds, positions, weekStart
  }

/-- Reads a draft from a value of a document in some notation. -/
def ofValue (format : DocumentFormat) : Value → Except DocumentError Draft
  | .table entries =>
      if entries.all fun entry => entry.1.isSome then ofEntries format entries
      else .error .malformed
  | .list items =>
      if items.length ≤ keys.length then
        ofEntries format ((keys.zip items).map fun (key, value) => (some key, value))
      else
        .error .malformed
  | _ => .error .malformed

/-- An entry that is written only if there is something to write. -/
def optionalEntry (key : String) (write : α → Value) : Option α → List (String × Value)
  | none => []
  | some a => [(key, write a)]

/-- An entry for a list, written only if the list is not empty. -/
def listEntry (key : String) (write : α → Value) : List α → List (String × Value)
  | [] => []
  | a :: rest => [(key, .list ((a :: rest).map write))]

/-- The document value of a draft: an entry for each part that is present, in order. -/
def toValue (draft : Draft) : Value :=
  let date := fun t => Value.string (DateTime.text t)
  let small := fun n => Value.integer (Int8.toInt n)
  let medium := fun n => Value.integer (Int16.toInt n)
  let large := fun n => Value.integer (UInt32.toNat n)
  .record <|
    [("frequency", .string draft.frequency.keyword), ("anchor", date draft.anchor)] ++
    optionalEntry "interval" large draft.interval ++
    optionalEntry "count" large draft.count ++
    optionalEntry "until" date draft.bound ++
    listEntry "by_month" small draft.months ++
    listEntry "by_month_day" small draft.monthDays ++
    listEntry "by_year_day" medium draft.yearDays ++
    listEntry "by_week_no" small draft.weekNumbers ++
    listEntry "by_weekday" (fun entry => .string (WeekdayEntry.text entry)) draft.weekdays ++
    listEntry "by_hour" small draft.hours ++
    listEntry "by_minute" small draft.minutes ++
    listEntry "by_second" small draft.seconds ++
    listEntry "by_set_pos" medium draft.positions ++
    optionalEntry "week_start" (fun weekday => .string (Weekday.code weekday)) draft.weekStart

end Draft

end Recurrence
