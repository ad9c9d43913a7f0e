/-!
# Restricted fields of a rule

Each list of a rule admits the values of one range, and each range has a wording for
error messages. Where days are counted from either end, zero is not a value.
-/

namespace Recurrence

/-- A field of a rule whose values are restricted to a range. -/
inductive Field where
  | month
  | monthDay
  | yearDay
  | weekNumber
  | weekday
  | hour
  | minute
  | second
  | position
deriving DecidableEq, Repr

namespace Field

/-- All restricted fields. -/
def all : List Field :=
  [month, monthDay, yearDay, weekNumber, weekday, hour, minute, second, position]

/-- The name under which messages speak of a field. -/
def name : Field → String
  | month => "BYMONTH"
  | monthDay => "BYMONTHDAY"
  | yearDay => "BYYEARDAY"
  | weekNumber => "BYWEEKNO"
  | weekday => "BYDAY"
  | hour => "BYHOUR"
  | minute => "BYMINUTE"
  | second => "BYSECOND"
  | position => "BYSETPOS"

/-- The field with a name. -/
def ofName? (text : String) : Option Field :=
  all.find? fun field => field.name = text

/-- The wording for the values a field accepts. -/
def expected : Field → String
  | month => "1..=12"
  | monthDay => "-31..=-1 or 1..=31"
  | yearDay | position => "-366..=-1 or 1..=366"
  | weekNumber => "-53..=-1 or 1..=53"
  | weekday => "an ordinal in -53..=-1 or 1..=53"
  | hour => "0..=23"
  | minute | second => "0..=59"

/-- Whether a value counts from either end and no further than `limit`. -/
def isIndex (limit value : Int) : Bool :=
  value ≠ 0 && -limit ≤ value && value ≤ limit

/-- Whether a field accepts a value. -/
def accepts (field : Field) (value : Int) : Bool :=
  match field with
  | month => 1 ≤ value && value ≤ 12
  | monthDay => isIndex 31 value
  | yearDay | position => isIndex 366 value
  | weekNumber | weekday => isIndex 53 value
  | hour => 0 ≤ value && value ≤ 23
  | minute | second => 0 ≤ value && value ≤ 59

end Field

end Recurrence
