/-!
# Document values

What a document says, whichever notation it is written in. JSON has nothing but the
first six kinds, TOML has no null but moments in time. The entries of a table keep
their order, and a notation that admits repeated keys keeps those as well: what they
mean is decided by whoever reads the table.

Only integers are held as numbers. A number that is written with a fraction or an
exponent is none, even if its value is whole, so of such a number the way it is
written is kept.
-/

namespace Recurrence

/--
The content of a quoted string: none if one of its escapes names half of a surrogate
pair, for that is no character and the string is no text.
-/
abbrev Quoted := Option String

/-- A notation in which documents are written. -/
inductive DocumentFormat where
  /-- JSON. -/
  | json
  /-- TOML. -/
  | toml
deriving DecidableEq

/-- A value of a document. -/
inductive Value where
  /-- The absent value. -/
  | null
  /-- A truth value. -/
  | bool (value : Bool)
  /-- A whole number. -/
  | integer (value : Int)
  /-- A number that is not written as a whole one. -/
  | real (written : String)
  /-- A string. -/
  | text (content : Quoted)
  /-- A sequence of values. -/
  | list (items : List Value)
  /-- Named values in the order in which they are written. -/
  | table (entries : List (Quoted × Value))
  /-- A date, a time or both, written without quotes. -/
  | moment (written : String)
deriving Inhabited

namespace Value

/-- The string with a content. -/
def string (content : String) : Value :=
  .text (some content)

/-- The table with some named values. -/
def record (entries : List (String × Value)) : Value :=
  .table (entries.map fun (key, value) => (some key, value))

/-- The string of an optional content, or the absent value. -/
def stringOrNull : Option String → Value
  | some content => string content
  | none => .null

/--
Whether a value says nothing, where a notation asks for a value and there is nothing to
say. JSON has the absent value for that, TOML an empty list or table.
-/
def isVoid : DocumentFormat → Value → Bool
  | .json, .null => true
  | .toml, .list [] | .toml, .table [] => true
  | _, _ => false

/--
The word that a value stands for where one of several words is expected: a string, or a
table with the word as its only key and nothing to say about it.
-/
def word? (format : DocumentFormat) : Value → Option String
  | .text content => content
  | .table [(key, value)] => if value.isVoid format then key else none
  | _ => none

/-- An optional whole number, or the absent value. -/
def integerOrNull : Option Int → Value
  | some value => .integer value
  | none => .null

end Value

end Recurrence
