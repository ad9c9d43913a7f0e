import Recurrence.Calendar.DateTime
import Recurrence.Text.Digits

/-!
# The text of dates and date-times

A date-time is written `1997-09-02T09:00:00`, with a fraction of the second behind a
point where there is one, and a year before year 0 as a sign and six digits. Each
date-time has exactly one written form.

Reading admits more: the basic form without separators, in the date or in the time
but not mixed inside of one of them, a signed year of six digits, a blank or a small
letter between date and time, a comma in front of the fraction, and a time that ends
early. What is missing of the time is zero, and the second 60 of an inserted leap
second is read as 59. The sign of year 0 must not be a minus.
-/

namespace Recurrence

namespace Text

/-- The fraction of a second, behind its point and without zeros at the end. -/
def fraction (nano : Nat) : List Char :=
  if nano = 0 then []
  else '.' :: ((fixedDigits 9 nano).reverse.dropWhile (· = '0')).reverse

/-- Reads a year: four digits, or a sign and six digits. -/
def readYear : List Char → Option (Int × List Char)
  | '+' :: text => do
      let (year, rest) ← readFixed 6 text
      return (year, rest)
  | '-' :: text => do
      let (year, rest) ← readFixed 6 text
      if year = 0 then none else return (-(year : Int), rest)
  | text => do
      let (year, rest) ← readFixed 4 text
      return (year, rest)

/-- Reads two digits, behind the separator `mark` if there is one. -/
def readPair (mark : Option Char) (text : List Char) : Option (Nat × List Char) :=
  match mark, text with
  | none, text => readFixed 2 text
  | some mark, c :: text => if c = mark then readFixed 2 text else none
  | some _, [] => none

/-- Reads the fraction of a second: one to nine digits behind a point or a comma. -/
def readFraction : List Char → Option (Nat × List Char)
  | c :: text =>
      if c = '.' ∨ c = ',' then
        let digits := (text.take 9).takeWhile Char.isDigit
        if digits = [] then none
        else
          let value := Nat.ofDigitChars 10 digits 0 * Nat.pow 10 (9 - digits.length)
          some (value, text.drop digits.length)
      else
        some (0, c :: text)
  | [] => some (0, [])

/-- A clock reading as it stands in a text, not yet checked. -/
structure Clock where
  /-- The hour. -/
  hour : Nat
  /-- The minute, zero if missing. -/
  minute : Nat
  /-- The second, zero if missing. -/
  second : Nat
  /-- The nanoseconds, zero if missing. -/
  nano : Nat

/-- Reads what may follow the minute: a second and its fraction. -/
def readSecond (mark : Option Char) (hour minute : Nat) (text : List Char) :
    Option (Clock × List Char) := do
  let (second, rest) ← readPair mark text
  let (nano, rest) ← readFraction rest
  return (⟨hour, minute, if second = 60 then 59 else second, nano⟩, rest)

/-- Whether the next time field can begin here: with the separator, or with a digit. -/
def continues (mark : Option Char) : List Char → Bool
  | [] => false
  | c :: _ => match mark with
      | some mark => c = mark
      | none => c.isDigit

/-- Reads a clock reading that may end after the hour or the minute. -/
def readClock (text : List Char) : Option (Clock × List Char) := do
  let (hour, rest) ← readFixed 2 text
  let mark := if rest.head? = some ':' then some ':' else none
  if continues mark rest then
    let (minute, rest) ← readPair mark rest
    if continues mark rest then
      readSecond mark hour minute rest
    else
      return (⟨hour, minute, 0, 0⟩, rest)
  else
    return (⟨hour, 0, 0, 0⟩, rest)

/-- Reads a date at the front of a text. -/
def readDate (text : List Char) : Option (Date × List Char) := do
  let (year, rest) ← readYear text
  let mark := if rest.head? = some '-' then some '-' else none
  let (month, rest) ← readPair mark rest
  let (day, rest) ← readPair mark rest
  let date ← Date.ofFields? year month day
  return (date, rest)

end Text

open Text

namespace Date

/-- The characters of a year: four digits, or before year 0 a minus sign and six. -/
def yearChars (year : Int) : List Char :=
  if year < 0 then '-' :: fixedDigits 6 year.natAbs else fixedDigits 4 year.natAbs

/-- The characters of a date: year, month and day. -/
def chars (date : Date) : List Char :=
  yearChars date.year ++ '-' :: fixedDigits 2 date.month.toNat ++
    '-' :: fixedDigits 2 date.day.toNat

/-- The text of a date. -/
def text (date : Date) : String :=
  String.ofList date.chars

end Date

namespace DateTime

/-- The characters of a clock reading without a fraction. -/
def clockChars (t : DateTime) : List Char :=
  fixedDigits 2 t.hour.toNat ++ ':' :: fixedDigits 2 t.minute.toNat ++
    ':' :: fixedDigits 2 t.secondOfMinute.toNat

/-- The characters of a date-time: the date, a `T`, the clock and a fraction if there is one. -/
def chars (t : DateTime) : List Char :=
  t.date.chars ++ 'T' :: t.clockChars ++ fraction t.nano

/-- The text of a date-time. -/
def text (t : DateTime) : String :=
  String.ofList t.chars

/-- Reads a whole text as a date-time; a date alone is its midnight. -/
def ofChars? (text : List Char) : Option DateTime := do
  let (date, rest) ← readDate text
  match rest with
  | [] => return ofDate date
  | c :: rest =>
      if c = 'T' ∨ c = 't' ∨ c = ' ' then
        let (clock, rest) ← readClock rest
        if rest = [] then ofClock? date clock.hour clock.minute clock.second clock.nano
        else none
      else
        none

/-- Reads a text as a date-time. -/
def ofText? (text : String) : Option DateTime :=
  ofChars? text.toList

/--
The characters of a year in a table, four wide where that is possible: a year before
year 0 takes a minus sign and at least three digits.
-/
def tableYearChars (year : Int) : List Char :=
  if year < 0 then '-' :: fixedDigits (if year ≤ -1000 then 4 else 3) year.natAbs
  else fixedDigits 4 year.natAbs

/-- The characters of a date-time in a table: date and clock apart by a blank. -/
def tableChars (t : DateTime) : List Char :=
  tableYearChars t.date.year ++ '-' :: fixedDigits 2 t.date.month.toNat ++
    '-' :: fixedDigits 2 t.date.day.toNat ++ ' ' :: t.clockChars

/-- The text of a date-time in a table. -/
def tableText (t : DateTime) : String :=
  String.ofList t.tableChars

end DateTime

namespace Date

/-- Reads a text as a date; a time that follows it must be valid and is dropped. -/
def ofText? (text : String) : Option Date :=
  (DateTime.ofText? text).map DateTime.date

end Date

end Recurrence
