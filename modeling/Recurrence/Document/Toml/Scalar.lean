import Recurrence.Calendar.Gregorian
import Recurrence.Document.Toml.Number
import Recurrence.Document.Value
import Recurrence.Text.Digits

/-!
# TOML scalars

The values of TOML that hold no others: strings in four kinds of quotes, numbers, truth
values, and moments in time. A string is read up to its closing quotes; every other
scalar is a run of characters that ends at a blank, a comma, a bracket or a comment, and
is then recognised as a whole.

A moment must be one that exists; it may leave out the seconds, or the time, or the date.
-/

namespace Recurrence.Toml

open Text

/-- A space or a tab. -/
def isSpace (c : Char) : Bool :=
  c = ' ' || c = '\t'

/-- A control character that no line may hold. -/
def isControl (c : Char) : Bool :=
  (c.toNat < 32 && c ≠ '\t') || c.toNat = 127

/-- Drops spaces and tabs. -/
def skipSpaces (text : List Char) : List Char :=
  text.dropWhile isSpace

/-! ## Strings -/

/-- The character that some hexadecimal digits denote; halves of a surrogate pair are none. -/
def scalarOfHex? (digits : List Char) : Option Char := do
  let code ← valueIn? 16 digits
  if code.isValidChar then some (Char.ofNat code) else none

/-- The character that an escape of one letter denotes. -/
def shortEscape? (c : Char) : Option Char :=
  match c with
  | 'b' => some (Char.ofNat 8)
  | 't' => some '\t'
  | 'n' => some '\n'
  | 'f' => some (Char.ofNat 12)
  | 'r' => some '\r'
  | 'e' => some (Char.ofNat 27)
  | '"' => some '"'
  | '\\' => some '\\'
  | _ => none

/-- Puts a character in front of what has been read. -/
def prepend (c : Char) (read : Option (List Char × List Char)) :
    Option (List Char × List Char) :=
  read.map fun (chars, rest) => (c :: chars, rest)

/-- Reads a string in double quotes behind the opening one. -/
def readBasic : List Char → Option (List Char × List Char)
  | [] => none
  | '"' :: text => some ([], text)
  | '\\' :: 'x' :: a :: b :: text => do
      let c ← scalarOfHex? [a, b]
      prepend c (readBasic text)
  | '\\' :: 'u' :: a :: b :: c :: d :: text => do
      let c ← scalarOfHex? [a, b, c, d]
      prepend c (readBasic text)
  | '\\' :: 'U' :: a :: b :: c :: d :: e :: f :: g :: h :: text => do
      let c ← scalarOfHex? [a, b, c, d, e, f, g, h]
      prepend c (readBasic text)
  | '\\' :: c :: text => do
      let c ← shortEscape? c
      prepend c (readBasic text)
  | c :: text => if isControl c then none else prepend c (readBasic text)

/-- Reads a string in single quotes behind the opening one; it has no escapes. -/
def readLiteral : List Char → Option (List Char × List Char)
  | [] => none
  | '\'' :: text => some ([], text)
  | c :: text => if isControl c then none else prepend c (readLiteral text)

/-- Whether the line holds nothing but spaces before it ends. -/
def lineIsBlank (text : List Char) : Bool :=
  match skipSpaces text with
  | '\n' :: _ | '\r' :: '\n' :: _ => true
  | _ => false

/--
Reads a string in three double quotes behind the opening ones. A backslash at the end
of a line drops all blanks and line ends that follow; `dropping` says that this is
going on.
-/
def readBasicLines (dropping : Bool) : List Char → Option (List Char × List Char)
  | [] => none
  | '"' :: '"' :: '"' :: '"' :: '"' :: text => some (['"', '"'], text)
  | '"' :: '"' :: '"' :: '"' :: text => some (['"'], text)
  | '"' :: '"' :: '"' :: text => some ([], text)
  | '\r' :: '\n' :: text =>
      if dropping then readBasicLines true text
      else prepend '\n' (readBasicLines false text)
  | '\\' :: 'x' :: a :: b :: text => do
      let c ← scalarOfHex? [a, b]
      prepend c (readBasicLines false text)
  | '\\' :: 'u' :: a :: b :: c :: d :: text => do
      let c ← scalarOfHex? [a, b, c, d]
      prepend c (readBasicLines false text)
  | '\\' :: 'U' :: a :: b :: c :: d :: e :: f :: g :: h :: text => do
      let c ← scalarOfHex? [a, b, c, d, e, f, g, h]
      prepend c (readBasicLines false text)
  | '\\' :: c :: text =>
      if lineIsBlank (c :: text) then readBasicLines true (c :: text)
      else do
        let c ← shortEscape? c
        prepend c (readBasicLines false text)
  | c :: text =>
      if dropping ∧ (isSpace c ∨ c = '\n') then readBasicLines true text
      else if isControl c ∧ c ≠ '\n' then none
      else prepend c (readBasicLines false text)

/-- Reads a string in three single quotes behind the opening ones. -/
def readLiteralLines : List Char → Option (List Char × List Char)
  | [] => none
  | '\'' :: '\'' :: '\'' :: '\'' :: '\'' :: text => some (['\'', '\''], text)
  | '\'' :: '\'' :: '\'' :: '\'' :: text => some (['\''], text)
  | '\'' :: '\'' :: '\'' :: text => some ([], text)
  | '\r' :: '\n' :: text => prepend '\n' (readLiteralLines text)
  | c :: text =>
      if isControl c ∧ c ≠ '\n' then none else prepend c (readLiteralLines text)

/-- Drops the line end that may follow the opening quotes of a string of several lines. -/
def dropFirstLineEnd : List Char → List Char
  | '\n' :: text => text
  | '\r' :: '\n' :: text => text
  | text => text

/-! ## Moments -/

/-- Reads a date of the form `1997-09-02` that exists. -/
def readDay (text : List Char) : Option (List Char) := do
  let (year, rest) ← readFixed 4 text
  match rest with
  | '-' :: rest => do
      let (month, rest) ← readFixed 2 rest
      match rest with
      | '-' :: rest => do
          let (day, rest) ← readFixed 2 rest
          if 1 ≤ month ∧ month ≤ 12 ∧ 1 ≤ day ∧ (day : Int) ≤ Gregorian.monthLength year month then
            some rest
          else
            none
      | _ => none
  | _ => none

/-- Reads two digits that denote a number up to `limit`. -/
def readUpTo (limit : Nat) (text : List Char) : Option (List Char) := do
  let (value, rest) ← readFixed 2 text
  if value ≤ limit then some rest else none

/-- Reads a fraction of a second, if there is one. -/
def readSubsecond : List Char → Option (List Char)
  | '.' :: c :: text => if c.isDigit then some (text.dropWhile Char.isDigit) else none
  | '.' :: [] => none
  | text => some text

/-- Reads a time of the form `09:00` or `09:00:00`, perhaps with a fraction of the second. -/
def readTime (text : List Char) : Option (List Char) := do
  let rest ← readUpTo 23 text
  match rest with
  | ':' :: rest => do
      let rest ← readUpTo 59 rest
      match rest with
      | ':' :: rest => do
          let rest ← readUpTo 60 rest
          readSubsecond rest
      | rest => some rest
  | _ => none

/-- Reads the distance from universal time, if there is one. -/
def readOffset : List Char → Option (List Char)
  | [] => some []
  | c :: text =>
      if c = 'Z' ∨ c = 'z' then some text
      else if c = '+' ∨ c = '-' then do
        let rest ← readUpTo 23 text
        match rest with
        | ':' :: rest => readUpTo 59 rest
        | _ => none
      else
        some (c :: text)

/-- Whether a text is a date alone. -/
def isDay (text : List Char) : Bool :=
  readDay text = some []

/-- Whether a text is a date and a time, with an offset or without. -/
def isDayAndTime (text : List Char) : Bool :=
  match readDay text with
  | some (c :: rest) =>
      (c = 'T' || c = 't' || c = ' ') && (readTime rest).bind readOffset = some []
  | _ => false

/-- Whether a text is a moment: a date, a time, or both. -/
def isMoment (text : List Char) : Bool :=
  isDay text || isDayAndTime text || readTime text = some []

/-! ## Scalars without quotes -/

/-- Whether a character ends a scalar without quotes. -/
def endsScalar (c : Char) : Bool :=
  isSpace c || c = '\n' || c = '\r' || c = ',' || c = ']' || c = '\x7d' || c = '#'

/-- The value of a scalar without quotes; a whole number must fit. -/
def scalar? (token : List Char) : Option Value :=
  if token = "true".toList then some (.bool true)
  else if token = "false".toList then some (.bool false)
  else
    match integer? token with
    | some value => if fitsWord value then some (.integer value) else none
    | none =>
        if isReal token then some (.real (String.ofList token))
        else if isMoment token then some (.moment (String.ofList token))
        else none

/-- Reads a scalar without quotes. A date and its time may stand apart by one space. -/
def readScalar (text : List Char) : Option (Value × List Char) := do
  let token := text.takeWhile fun c => !endsScalar c
  let rest := text.drop token.length
  let more := match rest with
    | ' ' :: c :: after =>
        if isDay token ∧ c.isDigit then ' ' :: (c :: after).takeWhile fun c => !endsScalar c else []
    | _ => []
  let value ← scalar? (token ++ more)
  return (value, rest.drop more.length)

end Recurrence.Toml
