import Recurrence.Command.Settings
import Recurrence.Text.Blank
import Recurrence.Text.DateTime

/-!
# Invocations

What a command line asks for: one of two commands, each on a rule file, with options of
its own. `UsageError` lists the ways in which a command line can be wrong; asking for
help or for the version is one of them, because nothing is run then.
-/

namespace Recurrence.Command

/-- A request to list the occurrences of a rule. -/
structure Listing where
  /-- The rule file. -/
  path : String
  /-- The most occurrences to list. -/
  count : Option Nat
  /-- Occurrences before this date-time are passed over. -/
  lower : Option DateTime
  /-- Occurrences after this date-time end the list. -/
  upper : Option DateTime
  /-- The format in which they are shown. -/
  outputFormat : Option OutputFormat
deriving DecidableEq

/-- A request to validate a rule and to show it in normal form. -/
structure Checking where
  /-- The rule file. -/
  path : String
  /-- The format in which it is shown. -/
  outputFormat : Option OutputFormat
deriving DecidableEq

/-- What is to be done. -/
inductive Request where
  /-- List occurrences. -/
  | list (listing : Listing)
  /-- Check a rule. -/
  | check (checking : Checking)
deriving DecidableEq

/-- The rule file of a request. -/
def Request.path : Request → String
  | .list listing => listing.path
  | .check checking => checking.path

/-- A command line that has been understood. -/
structure Invocation where
  /-- The configuration file, if one is named. -/
  config : Option String
  /-- What is to be done. -/
  request : Request
deriving DecidableEq

/-- Why a command line is not carried out. -/
inductive UsageError where
  /-- It is empty. -/
  | empty
  /-- It names no command. -/
  | missingCommand
  /-- It names a command that does not exist. -/
  | unknownCommand
  /-- It lacks the rule file. -/
  | missingRule
  /-- It has an argument that its command does not know, or one too many. -/
  | unknownArgument
  /-- A value is missing, empty, or not one of the words that are allowed. -/
  | invalidValue
  /-- A value is not a number. -/
  | invalidNumber
  /-- A value is not a date-time. -/
  | invalidDateTime (text : String)
  /-- A value is given to an option that takes none. -/
  | superfluousValue
  /-- An option is given twice. -/
  | repeatedOption
  /-- It asks for help. -/
  | help
  /-- It asks for the version. -/
  | version
deriving DecidableEq, Repr

namespace UsageError

/-- The wording of an error, where it has one of its own. -/
def message? : UsageError → Option String
  | invalidDateTime text => some s!"Invalid date-time '{text}', expected e.g. 1998-01-01 09:00"
  | _ => none

end UsageError

/-- Reads a date-time of the command line, without the blanks around it. -/
def readDateTime (text : String) : Except UsageError DateTime :=
  let trimmed := Text.trimBlanks text.toList
  match DateTime.ofChars? trimmed with
  | some t => .ok t
  | none => .error (.invalidDateTime (String.ofList trimmed))

/-- Reads a size of the command line; a plus sign may stand in front. -/
def readSize (text : String) : Except UsageError Nat :=
  let digits := match text.toList with
    | '+' :: digits => digits
    | digits => digits
  match Text.natural? digits with
  | some value => if value ≤ maxSize then .ok value else .error .invalidNumber
  | none => .error .invalidNumber

/-- Reads an output format of the command line. -/
def readFormat (text : String) : Except UsageError OutputFormat :=
  match OutputFormat.ofKeyword? text with
  | some format => .ok format
  | none => .error .invalidValue

/-- Reads a path of the command line; it must not be empty. -/
def readPath (text : String) : Except UsageError String :=
  if text = "" then .error .invalidValue else .ok text

end Recurrence.Command
