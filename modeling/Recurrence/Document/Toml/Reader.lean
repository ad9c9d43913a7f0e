import Recurrence.Document.Toml.Scalar
import Recurrence.Document.Toml.Tree

/-!
# TOML, read

A document is a sequence of lines, each with a key and its value, with the header of a
table, or with nothing, and each perhaps with a comment at its end. Lists and tables in
braces may extend over several lines, and may lie inside each other as deep as
`maxLevel`; as many keys may stand between dots.

`readLines` takes the number of lines as an argument, and `readItems` and `readEntries`
the number of items; `read?` supplies more of them than the text can hold.
-/

namespace Recurrence.Toml

/-- Drops a comment up to the end of its line. -/
def dropComment : List Char → Option (List Char)
  | [] => some []
  | '\n' :: text => some ('\n' :: text)
  | '\r' :: '\n' :: text => some ('\n' :: text)
  | c :: text => if isControl c then none else dropComment text

/-- Finishes a line: spaces, perhaps a comment, and the line end or the end of the text. -/
def finishLine (text : List Char) : Option (List Char) :=
  match skipSpaces text with
  | [] => some []
  | '\n' :: rest => some rest
  | '\r' :: '\n' :: rest => some rest
  | '#' :: rest => (dropComment rest).map (·.drop 1)
  | _ => none

/-- Drops blanks, line ends and comments between the parts of a list or table. -/
def skipGap (inComment : Bool) : List Char → Option (List Char)
  | [] => some []
  | '\n' :: text => skipGap false text
  | '\r' :: '\n' :: text => skipGap false text
  | c :: text =>
      if inComment then if isControl c then none else skipGap true text
      else if isSpace c then skipGap false text
      else if c = '#' then skipGap true text
      else some (c :: text)

/-- Whether a character may stand in a key without quotes. -/
def isBare (c : Char) : Bool :=
  c.isAlphanum || c = '-' || c = '_'

/-- Reads a key: a bare one, or one in quotes. -/
def readKey (text : List Char) : Option (String × List Char) :=
  match text with
  | '"' :: rest => do
      let (key, rest) ← readBasic rest
      return (String.ofList key, rest)
  | '\'' :: rest => do
      let (key, rest) ← readLiteral rest
      return (String.ofList key, rest)
  | _ =>
      match text.takeWhile isBare with
      | [] => none
      | key => some (String.ofList key, text.dropWhile isBare)

/-- The most levels on which lists and tables lie inside each other. -/
def maxLevel : Nat :=
  80

/-- Reads keys between dots, at most `limit` of them, and the spaces behind. -/
def readKeys : Nat → List Char → Option (List String × List Char)
  | 0, _ => none
  | limit + 1, text => do
      let (key, rest) ← readKey (skipSpaces text)
      match skipSpaces rest with
      | '.' :: rest => do
          let (keys, rest) ← readKeys limit rest
          return (key :: keys, rest)
      | rest => return ([key], rest)

/-- Reads a string of any kind behind its first quote. -/
def readQuoted (double : Bool) (text : List Char) : Option (Value × List Char) := do
  let (content, rest) ← match double, text with
    | true, '"' :: '"' :: rest => readBasicLines false (dropFirstLineEnd rest)
    | true, rest => readBasic rest
    | false, '\'' :: '\'' :: rest => readLiteralLines (dropFirstLineEnd rest)
    | false, rest => readLiteral rest
  return (.string (String.ofList content), rest)

/--
Reads at most `limit` items of a list and its end; a comma may stand behind the last one.
-/
def readItems (readItem : List Char → Option (Value × List Char)) :
    Nat → List Char → Option (List Value × List Char)
  | 0, _ => none
  | limit + 1, text => do
      match ← skipGap false text with
      | ']' :: rest => return ([], rest)
      | rest => do
          let (item, rest) ← readItem rest
          match ← skipGap false rest with
          | ']' :: rest => return ([item], rest)
          | ',' :: rest => do
              let (items, rest) ← readItems readItem limit rest
              return (item :: items, rest)
          | _ => none

/--
Reads at most `limit` entries of a table in braces and its end, and adds them to those
before; a comma may stand behind the last one.
-/
def readEntries (readItem : List Char → Option (Value × List Char)) :
    Nat → Entries → List Char → Option (Entries × List Char)
  | 0, _, _ => none
  | limit + 1, entries, text => do
      match ← skipGap false text with
      | '\x7d' :: rest => return (entries, rest)
      | rest => do
          let (path, rest) ← readKeys maxLevel rest
          match ← skipGap false rest with
          | '=' :: rest => do
              let rest ← skipGap false rest
              let (value, rest) ← readItem rest
              let entries ← entries.assign? path value
              match ← skipGap false rest with
              | '\x7d' :: rest => return (entries, rest)
              | ',' :: rest => readEntries readItem limit entries rest
              | _ => none
          | _ => none

/--
Reads a value with at most `level` levels of lists and tables, and in each of those at
most `limit` items. On the last level an opening bracket begins no value.
-/
def readValue (limit : Nat) : Nat → List Char → Option (Value × List Char)
  | _, '"' :: rest => readQuoted true rest
  | _, '\'' :: rest => readQuoted false rest
  | level + 1, '[' :: rest => do
      let (items, rest) ← readItems (readValue limit level) limit rest
      return (.list items, rest)
  | level + 1, '\x7b' :: rest => do
      let (entries, rest) ← readEntries (readValue limit level) limit [] rest
      return (.table (entryValues entries), rest)
  | _, rest => readScalar rest

/-- A document of which some lines have been read. -/
structure Progress where
  /-- Everything defined so far. -/
  entries : Entries
  /-- The keys of the last header. -/
  header : List String

/-- Reads a line with the header of a table, or of the next table of a sequence. -/
def readHeader (progress : Progress) (text : List Char) : Option (Progress × List Char) := do
  match text with
  | '[' :: rest => do
      let (path, rest) ← readKeys maxLevel rest
      match rest with
      | ']' :: ']' :: rest => do
          let entries ← progress.entries.openNext? path
          let rest ← finishLine rest
          return (⟨entries, path⟩, rest)
      | _ => none
  | rest => do
      let (path, rest) ← readKeys maxLevel rest
      match rest with
      | ']' :: rest => do
          let entries ← progress.entries.openTable? path
          let rest ← finishLine rest
          return (⟨entries, path⟩, rest)
      | _ => none

/-- Reads a line with a key and its value, of which a list has at most `limit` items. -/
def readAssignment (limit : Nat) (progress : Progress) (text : List Char) :
    Option (Progress × List Char) := do
  let (path, rest) ← readKeys maxLevel text
  match rest with
  | '=' :: rest => do
      let (value, rest) ← readValue limit maxLevel (skipSpaces rest)
      let entries ←
        progress.entries.alongHeader (fun inner => Entries.assign? inner path value) progress.header
      let rest ← finishLine rest
      return (⟨entries, progress.header⟩, rest)
  | _ => none

/-- Reads at most `lines` lines up to the end of the text, with at most `limit` items in a list. -/
def readLines (limit : Nat) : Nat → Progress → List Char → Option Entries
  | 0, _, _ => none
  | lines + 1, progress, text =>
      match finishLine text with
      | some [] => some progress.entries
      | some rest => readLines limit lines progress rest
      | none => do
          let (progress, rest) ← match skipSpaces text with
            | '[' :: rest => readHeader progress rest
            | rest => readAssignment limit progress rest
          readLines limit lines progress rest

/-- Reads a whole text as a table. A byte order mark in front of it is dropped. -/
def read? (text : String) : Option Value := do
  let chars := match text.toList with
    | c :: chars => if c.toNat = 0xFEFF then chars else c :: chars
    | [] => []
  let limit := chars.length + 1
  let entries ← readLines limit limit ⟨[], []⟩ chars
  return .table (entryValues entries)

end Recurrence.Toml
