import Recurrence.Calendar.Weekday
import Recurrence.Rule.Narrow
import Recurrence.Text.Blank
import Recurrence.Text.Digits

/-!
# Weekday entries

An entry of a rule's weekdays is a weekday, perhaps with an ordinal in front: `TU`
means every Tuesday of the period, `2TU` the second one, `-1TU` the last one. An
entry may carry any ordinal of eight bits, zero included; which of them a rule
accepts is decided when the rule is built.
-/

namespace Recurrence

open Text

/-- A weekday with an optional ordinal. -/
structure WeekdayEntry where
  /-- Which such weekday of the period, counted from its end if negative; none for all of them. -/
  ordinal : Option Int8
  /-- The weekday. -/
  weekday : Weekday
deriving DecidableEq

namespace WeekdayEntry

/-- The characters of an entry: the ordinal's digits, if any, and the code. -/
def chars (entry : WeekdayEntry) : List Char :=
  (match entry.ordinal with
    | none => []
    | some ordinal => signed ordinal.toInt) ++ entry.weekday.code.toList

/-- The text of an entry. -/
def text (entry : WeekdayEntry) : String :=
  String.ofList entry.chars

/-- Reads an ordinal: nothing, or an integer of eight bits that may have a sign. -/
def readOrdinal : List Char → Option (Option Int8)
  | [] => some none
  | digits => do
      let value ← integer? digits
      let ordinal ← toInt8? value
      return some ordinal

/--
Reads an entry. Blanks around it are ignored; its last two characters are the code,
in letters of either case, and what stands before them is the ordinal.
-/
def ofChars? (text : List Char) : Option WeekdayEntry := do
  let trimmed := trimBlanks text
  let split := trimmed.length - 2
  let weekday ← Weekday.ofCode? (String.ofList ((trimmed.drop split).map Char.toUpper))
  let ordinal ← readOrdinal (trimmed.take split)
  return ⟨ordinal, weekday⟩

/-- Reads a text as an entry. -/
def ofText? (text : String) : Option WeekdayEntry :=
  ofChars? text.toList

/-- The place of an entry in a sorted set: by ordinal, none first, then by weekday. -/
def key (entry : WeekdayEntry) : Int :=
  (match entry.ordinal with
    | none => 0
    | some ordinal => ordinal.toInt + 129) * 7 + entry.weekday.offset

/-- Distinct entries have distinct places. -/
theorem eq_of_key_eq {a b : WeekdayEntry} (h : a.key = b.key) : a = b := by
  obtain ⟨oa, wa⟩ := a
  obtain ⟨ob, wb⟩ := b
  have ha := wa.offset_nonneg
  have ha' := wa.offset_lt
  have hb := wb.offset_nonneg
  have hb' := wb.offset_lt
  have hw : wa.offset = wb.offset → wa = wb := fun hab => by
    rw [← wa.ofOffset_offset, ← wb.ofOffset_offset, hab]
  cases oa with
  | none =>
      cases ob with
      | none =>
          simp only [key] at h
          rw [hw (by omega)]
      | some n =>
          have := n.le_toInt
          simp only [key] at h
          omega
  | some m =>
      have := m.le_toInt
      cases ob with
      | none =>
          simp only [key] at h
          omega
      | some n =>
          have := n.le_toInt
          simp only [key] at h
          have hn : m = n := Int8.toInt_inj.1 (by omega)
          rw [hn, hw (by rw [hn] at h; omega)]

end WeekdayEntry

end Recurrence
