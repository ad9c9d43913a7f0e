import Recurrence.Rule.Error
import Recurrence.Rule.WeekdayEntry
import Recurrence.Text.Bytes

/-!
# Weekday entries as bytes

The text of a weekday entry may be anything, and the code that ends it is looked for in
its last two bytes. So the text is cut at a byte, which may be the middle of a character.
Whatever goes wrong, the error gives the text as it came, with the blanks around it.
-/

namespace Recurrence.WeekdayEntry

open Text

/-- Reads an entry whose code is stored in the last two bytes before the blanks at the end. -/
def parse (text : String) : Except RuleError WeekdayEntry :=
  let trimmed := trimBlanks text.toList
  let refused := .error (.invalidWeekday text)
  if byteLength trimmed < 2 then refused
  else
    match cutAt (byteLength trimmed - 2) trimmed with
    | none => refused
    | some (digits, code) =>
        match Weekday.ofCode? (String.ofList (code.map Char.toUpper)) with
        | none => refused
        | some weekday =>
            match readOrdinal digits with
            | none => refused
            | some ordinal => .ok ⟨ordinal, weekday⟩

end Recurrence.WeekdayEntry
