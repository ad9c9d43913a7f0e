import Recurrence.Text.Digits

/-!
# TOML numbers

Whole numbers in four bases, and other numbers with a fraction, an exponent or both.
Underscores may stand between the digits of a number, and nowhere else.

A number must fit: a whole one into 128 bits, signed or unsigned, and any other one into
binary numbers of double precision. How large those become is known exactly, so
`Decimal.isFinite` compares the number as it is written and does not round.
-/

namespace Recurrence.Toml

/-! ## Digits -/

/-- The value of a digit in some base up to sixteen. -/
def digitIn? (base : Nat) (c : Char) : Option Nat :=
  let value? :=
    if '0' ≤ c ∧ c ≤ '9' then some (c.toNat - 48)
    else if 'a' ≤ c ∧ c ≤ 'f' then some (c.toNat - 87)
    else if 'A' ≤ c ∧ c ≤ 'F' then some (c.toNat - 55)
    else none
  value?.filter (· < base)

/-- The number that some digits denote. -/
def valueIn? (base : Nat) (digits : List Char) : Option Nat :=
  digits.foldlM (fun value c => (digitIn? base c).map (value * base + ·)) 0

/-- A run of digits without the underscores that stand between them. -/
def ungroup (isDigit : Char → Bool) (behindDigit : Bool) : List Char → Option (List Char)
  | [] => if behindDigit then some [] else none
  | c :: text =>
      if c = '_' then
        if behindDigit then ungroup isDigit false text else none
      else if isDigit c then (ungroup isDigit true text).map (c :: ·)
      else none

/-- The digits of a run of decimal digits. -/
def decimalDigits? (text : List Char) : Option (List Char) :=
  ungroup Char.isDigit false text

/-- The digits of a whole decimal number; there are no leading zeros. -/
def wholeDigits? (text : List Char) : Option (List Char) := do
  let digits ← decimalDigits? text
  if text.head? = some '0' ∧ text.length ≠ 1 then none else some digits

/-- A text without its sign, and whether that was a minus. -/
def splitSign : List Char → Bool × List Char
  | '+' :: text => (false, text)
  | '-' :: text => (true, text)
  | text => (false, text)

/-- A number with its sign. -/
def withSign (negative : Bool) (value : Nat) : Int :=
  if negative then -value else value

/-! ## Whole numbers -/

/-- The number that a run of digits denotes in some base. -/
def natIn? (base : Nat) (text : List Char) : Option Nat := do
  let digits ← ungroup (fun c => (digitIn? base c).isSome) false text
  valueIn? base digits

/-- The whole number that a text denotes. Only decimal numbers have a sign. -/
def integer? (text : List Char) : Option Int :=
  match text with
  | '0' :: 'x' :: digits => (natIn? 16 digits).map Int.ofNat
  | '0' :: 'o' :: digits => (natIn? 8 digits).map Int.ofNat
  | '0' :: 'b' :: digits => (natIn? 2 digits).map Int.ofNat
  | _ => do
      let (negative, text) := splitSign text
      let digits ← wholeDigits? text
      let value ← valueIn? 10 digits
      return withSign negative value

/-- Whether a whole number fits into 128 bits, signed or unsigned. -/
def fitsWord (value : Int) : Bool :=
  -170141183460469231731687303715884105728 ≤ value &&
    value ≤ 340282366920938463463374607431768211455

/-! ## Other numbers -/

/-- A number without its sign: decimal digits, and the power of ten that they are times. -/
structure Decimal where
  /-- The digits. -/
  digits : List Char
  /-- The power of ten. -/
  exponent : Int

/-- The exponent that a text denotes: an `e`, a sign or none, and digits. -/
def exponent? : List Char → Option Int
  | c :: text =>
      if c = 'e' ∨ c = 'E' then
        let (negative, digits) := splitSign text
        (natIn? 10 digits).map (withSign negative)
      else
        none
  | [] => none

/--
The number that a text without a sign denotes, if it is not written as a whole one:
behind its whole digits there is a fraction, an exponent, or one and then the other.
-/
def decimal? (text : List Char) : Option Decimal := do
  let isExponentMark := fun c => c = 'e' || c = 'E'
  let whole := text.takeWhile fun c => c ≠ '.' && !isExponentMark c
  let wholeDigits ← wholeDigits? whole
  match text.drop whole.length with
  | '.' :: rest => do
      let fraction := rest.takeWhile fun c => !isExponentMark c
      let fractionDigits ← decimalDigits? fraction
      let exponent ← match rest.drop fraction.length with
        | [] => some 0
        | rest => exponent? rest
      return ⟨wholeDigits ++ fractionDigits, exponent - fractionDigits.length⟩
  | rest => do
      let exponent ← exponent? rest
      return ⟨wholeDigits, exponent⟩

/--
The least number that is rounded to infinity in double precision. The greatest finite
one is `2 ^ 1024 - 2 ^ 971`; half a step above it a number is as near to `2 ^ 1024`,
and a tie goes there.
-/
def overflowLimit : Nat :=
  Nat.pow 2 1024 - Nat.pow 2 970

/--
Whether a number is finite in double precision. The limit has 309 digits before the
point, so a number with fewer of them is below it and one with more is above it. Only
a number with as many has to be compared.
-/
def Decimal.isFinite (decimal : Decimal) : Bool :=
  let digits := decimal.digits.dropWhile (· = '0')
  let length := digits.length + decimal.exponent
  if digits = [] ∨ length < 309 then true
  else if length > 309 then false
  else
    let value := Nat.ofDigitChars 10 digits 0
    value * Nat.pow 10 decimal.exponent.toNat <
      overflowLimit * Nat.pow 10 (-decimal.exponent).toNat

/-- Whether a text is a number that is not written as a whole one. -/
def isReal (text : List Char) : Bool :=
  let (_, text) := splitSign text
  text = "inf".toList || text = "nan".toList || (decimal? text).any Decimal.isFinite

end Recurrence.Toml
