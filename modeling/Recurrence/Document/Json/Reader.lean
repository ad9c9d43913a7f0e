import Recurrence.Document.Value
import Recurrence.Text.Digits

/-!
# JSON, read

A reader for strict JSON: one value, with blanks around it and nothing else. Numbers
have no leading zeros and no plus sign, strings hold no control characters, and every
escape must be one of the known ones. A repeated key is kept.

`readValue` takes the depth to which it may look as an argument; `read?` supplies
more than the text can reach.
-/

namespace Recurrence.Json

open Text

/-- Drops spaces, tabs and line ends. -/
def skipBlanks : List Char → List Char
  | [] => []
  | c :: text =>
      if c = ' ' ∨ c = '\n' ∨ c = '\t' ∨ c = '\r' then skipBlanks text else c :: text

/-- The value of a hexadecimal digit. -/
def hexValue? (c : Char) : Option Nat :=
  let code := c.toNat
  if 48 ≤ code ∧ code ≤ 57 then some (code - 48)
  else if 97 ≤ code ∧ code ≤ 102 then some (code - 87)
  else if 65 ≤ code ∧ code ≤ 70 then some (code - 55)
  else none

/-- The number that four hexadecimal digits denote. -/
def hexCode? (a b c d : Char) : Option Nat := do
  let a ← hexValue? a
  let b ← hexValue? b
  let c ← hexValue? c
  let d ← hexValue? d
  return ((a * 16 + b) * 16 + c) * 16 + d

/-- The code that an escape of one letter denotes. -/
def shortEscape? (c : Char) : Option Nat :=
  match c with
  | '"' => some 34
  | '\\' => some 92
  | '/' => some 47
  | 'b' => some 8
  | 'f' => some 12
  | 'n' => some 10
  | 'r' => some 13
  | 't' => some 9
  | _ => none

/-- Reads the codes of a string up to its closing quote; an escape may give half a pair. -/
def readCodes : List Char → Option (List Nat × List Char)
  | [] => none
  | '"' :: text => some ([], text)
  | '\\' :: 'u' :: a :: b :: c :: d :: text => do
      let code ← hexCode? a b c d
      let (codes, rest) ← readCodes text
      return (code :: codes, rest)
  | '\\' :: c :: text => do
      let code ← shortEscape? c
      let (codes, rest) ← readCodes text
      return (code :: codes, rest)
  | c :: text =>
      if c.toNat < 32 ∨ c = '\\' then none
      else do
        let (codes, rest) ← readCodes text
        return (c.toNat :: codes, rest)

/-- Whether a code is the first half of a surrogate pair. -/
def isHighHalf (code : Nat) : Bool :=
  0xD800 ≤ code && code < 0xDC00

/-- Whether a code is the second half of a surrogate pair. -/
def isLowHalf (code : Nat) : Bool :=
  0xDC00 ≤ code && code < 0xE000

/-- The characters of some codes, if every half of a pair has its other half beside it. -/
def joinPairs : List Nat → Option (List Char)
  | [] => some []
  | high :: low :: codes =>
      if isHighHalf high then
        if isLowHalf low then
          (joinPairs codes).map
            (Char.ofNat (0x10000 + (high - 0xD800) * 0x400 + (low - 0xDC00)) :: ·)
        else none
      else if isLowHalf high then none
      else (joinPairs (low :: codes)).map (Char.ofNat high :: ·)
  | [code] => if isHighHalf code ∨ isLowHalf code then none else some [Char.ofNat code]

/-- Reads a string behind its opening quote. -/
def readString (text : List Char) : Option (Quoted × List Char) := do
  let (codes, rest) ← readCodes text
  return ((joinPairs codes).map String.ofList, rest)

/-- The front of a text that one or more digits make up, and the rest. -/
def readDigits (text : List Char) : Option (List Char × List Char) :=
  match text.takeWhile Char.isDigit with
  | [] => none
  | digits => some (digits, text.dropWhile Char.isDigit)

/-- Reads the fraction of a number, if there is one. -/
def readFractionPart : List Char → Option (List Char × List Char)
  | '.' :: text => do
      let (digits, rest) ← readDigits text
      return ('.' :: digits, rest)
  | text => some ([], text)

/-- Reads the exponent of a number, if there is one. -/
def readExponentPart : List Char → Option (List Char × List Char)
  | c :: text =>
      if c = 'e' ∨ c = 'E' then
        match text with
        | sign :: text' =>
            if sign = '+' ∨ sign = '-' then do
              let (digits, rest) ← readDigits text'
              return (c :: sign :: digits, rest)
            else do
              let (digits, rest) ← readDigits text
              return (c :: digits, rest)
        | [] => none
      else
        some ([], c :: text)
  | [] => some ([], [])

/-- Reads a number without its sign. A minus zero is not a whole number. -/
def readMagnitude (negative : Bool) (text : List Char) : Option (Value × List Char) := do
  let (whole, rest) ← readDigits text
  if whole.head? = some '0' ∧ whole.length ≠ 1 then none
  else
    let (fraction, rest) ← readFractionPart rest
    let (exponent, rest) ← readExponentPart rest
    let sign := if negative then ['-'] else []
    if fraction = [] ∧ exponent = [] ∧ ¬ (negative ∧ whole = ['0']) then
      let value : Int := Nat.ofDigitChars 10 whole 0
      return (.integer (if negative then -value else value), rest)
    else
      return (.real (String.ofList (sign ++ whole ++ fraction ++ exponent)), rest)

mutual

/-- Reads a value that may reach as deep as `depth`. -/
def readValue : Nat → List Char → Option (Value × List Char)
  | 0, _ => none
  | depth + 1, text =>
      match skipBlanks text with
      | 'n' :: 'u' :: 'l' :: 'l' :: rest => some (.null, rest)
      | 't' :: 'r' :: 'u' :: 'e' :: rest => some (.bool true, rest)
      | 'f' :: 'a' :: 'l' :: 's' :: 'e' :: rest => some (.bool false, rest)
      | '"' :: rest => do
          let (content, rest) ← readString rest
          return (.text content, rest)
      | '-' :: rest => readMagnitude true rest
      | '[' :: rest =>
          match skipBlanks rest with
          | ']' :: rest => some (.list [], rest)
          | rest => do
              let (items, rest) ← readItems depth rest
              return (.list items, rest)
      | '\x7b' :: rest =>
          match skipBlanks rest with
          | '\x7d' :: rest => some (.table [], rest)
          | rest => do
              let (entries, rest) ← readEntries depth rest
              return (.table entries, rest)
      | rest => readMagnitude false rest

/-- Reads the items of a list and its end. -/
def readItems : Nat → List Char → Option (List Value × List Char)
  | 0, _ => none
  | depth + 1, text => do
      let (item, rest) ← readValue depth text
      match skipBlanks rest with
      | ']' :: rest => return ([item], rest)
      | ',' :: rest => do
          let (items, rest) ← readItems depth rest
          return (item :: items, rest)
      | _ => none

/-- Reads the entries of a table and its end. -/
def readEntries : Nat → List Char → Option (List (Quoted × Value) × List Char)
  | 0, _ => none
  | depth + 1, text =>
      match skipBlanks text with
      | '"' :: rest => do
          let (key, rest) ← readString rest
          match skipBlanks rest with
          | ':' :: rest => do
              let (value, rest) ← readValue depth rest
              match skipBlanks rest with
              | '\x7d' :: rest => return ([(key, value)], rest)
              | ',' :: rest => do
                  let (entries, rest) ← readEntries depth rest
                  return ((key, value) :: entries, rest)
              | _ => none
          | _ => none
      | _ => none

end

/-- Reads a whole text as one value. -/
def read? (text : String) : Option Value := do
  let chars := text.toList
  let (value, rest) ← readValue (chars.length + 1) chars
  if skipBlanks rest = [] then some value else none

end Recurrence.Json
