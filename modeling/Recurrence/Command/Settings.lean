import Recurrence.Document.Toml.Reader

/-!
# Settings

What a configuration file may set: how many occurrences are listed unless the command
line says so, and in which format. Everything has a default, a setting that does not
exist is refused, and a list of no occurrences at all is not a sensible default.
-/

namespace Recurrence.Command

/-- How results are shown. -/
inductive OutputFormat where
  /-- As one JSON document. -/
  | json
  /-- As aligned rows. -/
  | table
deriving DecidableEq, Repr

namespace OutputFormat

/-- The word for a format. -/
def keyword : OutputFormat → String
  | json => "json"
  | table => "table"

/-- Reads the word for a format; case matters. -/
def ofKeyword? (text : String) : Option OutputFormat :=
  [json, table].find? fun format => format.keyword = text

end OutputFormat

/-- The settings of a configuration file. -/
structure Settings where
  /-- The most occurrences that are listed. -/
  maxOccurrences : Nat
  /-- The format in which results are shown. -/
  outputFormat : OutputFormat
deriving DecidableEq

/-- Why a text is no configuration. -/
inductive SettingsError where
  /-- It is no document, or has a setting that does not exist or has the wrong type. -/
  | malformed
  /-- The most occurrences are none. -/
  | zeroMaximum
deriving DecidableEq, Repr

namespace SettingsError

/-- The wording of an error. -/
def message : SettingsError → String
  | malformed => "malformed document"
  | zeroMaximum => "max_occurrences must be positive"

end SettingsError

/-- The greatest number that a size may have. -/
def maxSize : Nat :=
  18446744073709551615

namespace Settings

/-- The settings without a configuration file. -/
def standard : Settings where
  maxOccurrences := 100
  outputFormat := .table

/-- Applies one entry of a configuration. -/
def set? (settings : Settings) : Quoted × Value → Option Settings
  | (some "max_occurrences", .integer value) =>
      if 0 ≤ value ∧ value ≤ maxSize then some { settings with maxOccurrences := value.toNat }
      else none
  | (some "output_format", value) => do
      let word ← value.word? .toml
      let format ← OutputFormat.ofKeyword? word
      return { settings with outputFormat := format }
  | _ => none

/-- Reads a configuration. That it is well-formed is checked before its values are. -/
def ofText (text : String) : Except SettingsError Settings :=
  match Toml.read? text with
  | some (.table entries) =>
      match entries.foldlM set? standard with
      | some settings =>
          if settings.maxOccurrences = 0 then .error .zeroMaximum else .ok settings
      | none => .error .malformed
  | _ => .error .malformed

end Settings

end Recurrence.Command
