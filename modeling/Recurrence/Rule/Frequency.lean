/-!
# Frequencies

The base unit of a recurrence. Rule documents spell it in small letters and exactly;
elsewhere it is shown in capitals and read without regard to case.
-/

namespace Recurrence

/-- The base unit of a recurrence. -/
inductive Frequency where
  | secondly
  | minutely
  | hourly
  | daily
  | weekly
  | monthly
  | yearly
deriving DecidableEq, Repr

namespace Frequency

/-- The frequencies from the shortest unit to the longest. -/
def all : List Frequency :=
  [secondly, minutely, hourly, daily, weekly, monthly, yearly]

/-- The word by which rule documents name a frequency. -/
def keyword : Frequency → String
  | secondly => "secondly"
  | minutely => "minutely"
  | hourly => "hourly"
  | daily => "daily"
  | weekly => "weekly"
  | monthly => "monthly"
  | yearly => "yearly"

/-- The name under which a frequency is shown. -/
def name : Frequency → String
  | secondly => "SECONDLY"
  | minutely => "MINUTELY"
  | hourly => "HOURLY"
  | daily => "DAILY"
  | weekly => "WEEKLY"
  | monthly => "MONTHLY"
  | yearly => "YEARLY"

/-- Reads the word of a rule document; it must match exactly. -/
def ofKeyword? (text : String) : Option Frequency :=
  all.find? fun frequency => frequency.keyword = text

/-- Reads a name without regard to the case of its ASCII letters. -/
def ofName? (text : String) : Option Frequency :=
  all.find? fun frequency => frequency.name.toList = text.toList.map Char.toUpper

theorem ofKeyword?_keyword (frequency : Frequency) :
    ofKeyword? frequency.keyword = some frequency := by
  cases frequency <;> decide

end Frequency

end Recurrence
