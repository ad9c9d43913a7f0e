/-!
# Decimal digits

Numbers in texts come in two forms. A field of a date has a fixed number of digits,
with zeros in front; `fixedDigits` writes such a field and `readFixed` reads it, and
`readFixed_fixedDigits` says that a number that fits is read back, whatever follows.
A plain integer has as many digits as it needs and perhaps a sign; it is read by
`integer?` and written by `signed`.
-/

namespace Recurrence.Text

/-- The character of a digit. -/
def digit (value : Nat) : Char :=
  Char.ofNat (48 + value % 10)

/-- The value of a digit's character. -/
def digitValue (c : Char) : Nat :=
  c.toNat - 48

/-- The lowest `width` digits of a number, with zeros in front. -/
def fixedDigits : Nat → Nat → List Char
  | 0, _ => []
  | width + 1, value => digit (value / Nat.pow 10 width) :: fixedDigits width value

/-- Reads exactly `width` digits and returns what follows them. -/
def readFixed : Nat → List Char → Option (Nat × List Char)
  | 0, text => some (0, text)
  | _ + 1, [] => none
  | width + 1, c :: text =>
      if c.isDigit then do
        let (value, rest) ← readFixed width text
        return (digitValue c * Nat.pow 10 width + value, rest)
      else
        none

/-- The number that a text of one or more digits denotes. -/
def natural? (text : List Char) : Option Nat :=
  if text ≠ [] ∧ text.all Char.isDigit then some (Nat.ofDigitChars 10 text 0) else none

/-- The integer that one or more digits denote, with a sign in front or without. -/
def integer? : List Char → Option Int
  | '+' :: text => (natural? text).map fun value => (value : Int)
  | '-' :: text => (natural? text).map fun value => -(value : Int)
  | text => (natural? text).map fun value => (value : Int)

/-- The digits of a number, as many as it needs. -/
def unsigned (value : Nat) : List Char :=
  Nat.toDigits 10 value

/-- The digits of an integer behind a minus sign if it is negative. -/
def signed (value : Int) : List Char :=
  if value < 0 then '-' :: unsigned value.natAbs else unsigned value.natAbs

theorem isDigit_digit (value : Nat) : (digit value).isDigit = true := by
  have h : ∀ k : Fin 10, (Char.ofNat (48 + k)).isDigit = true := by decide
  exact h ⟨value % 10, Nat.mod_lt _ (by decide)⟩

theorem digitValue_digit (value : Nat) : digitValue (digit value) = value % 10 := by
  have h : ∀ k : Fin 10, (Char.ofNat (48 + k)).toNat - 48 = k := by decide
  exact h ⟨value % 10, Nat.mod_lt _ (by decide)⟩

/-- A number that fits its field is read back, whatever follows the field. -/
theorem readFixed_fixedDigits (width value : Nat) (rest : List Char) :
    readFixed width (fixedDigits width value ++ rest) = some (value % Nat.pow 10 width, rest) := by
  induction width with
  | zero => simp [readFixed, fixedDigits, Nat.mod_one]
  | succ width ih =>
      have hsplit : value % Nat.pow 10 (width + 1) =
          value % Nat.pow 10 width + Nat.pow 10 width * (value / Nat.pow 10 width % 10) :=
        Nat.mod_pow_succ
      simp only [fixedDigits, List.cons_append, readFixed, isDigit_digit, if_true, ih,
        digitValue_digit, Option.bind_eq_bind, Option.bind_some]
      rw [hsplit, Nat.mul_comm, Nat.add_comm]
      rfl

theorem natural?_unsigned (value : Nat) : natural? (unsigned value) = some value := by
  unfold natural? unsigned
  rw [if_pos, Nat.ofDigitChars_ten_toDigits]
  refine ⟨Nat.toDigits_ne_nil, ?_⟩
  rw [List.all_eq_true]
  exact fun c hc => Nat.isDigit_of_mem_toDigits (by decide) (by decide) hc

end Recurrence.Text
