import Recurrence.Document.Value
import Recurrence.Text.Digits

/-!
# JSON, written

Two layouts of the same text: `compact` without any blanks, and `indented` with one
item or entry to a line and two spaces for each level. An empty list or table takes
no lines of its own in either.

In a string the quote, the backslash and the control characters are escaped, all else
stands for itself.
-/

namespace Recurrence.Json

open Text

/-- The hexadecimal digit of a number below sixteen. -/
def hexDigit (value : Nat) : Char :=
  if value < 10 then Char.ofNat (48 + value) else Char.ofNat (87 + value)

/-- The four hexadecimal digits of an escape. -/
def hexDigits (code : Nat) : List Char :=
  [hexDigit (code / 4096 % 16), hexDigit (code / 256 % 16), hexDigit (code / 16 % 16),
    hexDigit (code % 16)]

/-- A character as it stands in a string. -/
def escape (c : Char) : List Char :=
  if c = '"' then ['\\', '"']
  else if c = '\\' then ['\\', '\\']
  else if c = '\n' then ['\\', 'n']
  else if c = '\t' then ['\\', 't']
  else if c = '\r' then ['\\', 'r']
  else if c.toNat = 8 then ['\\', 'b']
  else if c.toNat = 12 then ['\\', 'f']
  else if c.toNat < 32 then '\\' :: 'u' :: hexDigits c.toNat
  else [c]

/-- A string in quotes; half of a surrogate pair stands for one that is no text. -/
def quote : Quoted → List Char
  | some content => '"' :: content.toList.flatMap escape ++ ['"']
  | none => "\"\\ud800\"".toList

/-- A line break and the indentation of a level. -/
def newLine (level : Nat) : List Char :=
  '\n' :: List.replicate (2 * level) ' '

mutual

/-- A value without blanks. -/
def compact : Value → List Char
  | .null => "null".toList
  | .bool true => "true".toList
  | .bool false => "false".toList
  | .integer value => signed value
  | .real written => written.toList
  | .text content => quote content
  | .moment written => quote (some written)
  | .list items => '[' :: compactItems items ++ [']']
  | .table entries => '\x7b' :: compactEntries entries ++ ['\x7d']

/-- Items between commas. -/
def compactItems : List Value → List Char
  | [] => []
  | [item] => compact item
  | item :: items => compact item ++ ',' :: compactItems items

/-- Entries between commas. -/
def compactEntries : List (Quoted × Value) → List Char
  | [] => []
  | [(key, value)] => quote key ++ ':' :: compact value
  | (key, value) :: entries => quote key ++ ':' :: compact value ++ ',' :: compactEntries entries

end

mutual

/-- A value that begins on a line of some level. -/
def indented (level : Nat) : Value → List Char
  | .list [] => ['[', ']']
  | .table [] => ['\x7b', '\x7d']
  | .list (item :: items) =>
      '[' :: indentedItems (level + 1) (item :: items) ++ newLine level ++ [']']
  | .table (entry :: entries) =>
      '\x7b' :: indentedEntries (level + 1) (entry :: entries) ++ newLine level ++ ['\x7d']
  | value => compact value

/-- Items on lines of their own. -/
def indentedItems (level : Nat) : List Value → List Char
  | [] => []
  | [item] => newLine level ++ indented level item
  | item :: items => newLine level ++ indented level item ++ ',' :: indentedItems level items

/-- Entries on lines of their own. -/
def indentedEntries (level : Nat) : List (Quoted × Value) → List Char
  | [] => []
  | [(key, value)] => newLine level ++ quote key ++ ':' :: ' ' :: indented level value
  | (key, value) :: entries =>
      newLine level ++ quote key ++ ':' :: ' ' :: indented level value ++
        ',' :: indentedEntries level entries

end

/-- The text of a value on one line. -/
def render (value : Value) : String :=
  String.ofList (compact value)

/-- The text of a value over several lines. -/
def renderIndented (value : Value) : String :=
  String.ofList (indented 0 value)

end Recurrence.Json
