/-!
# Numbers of limited width

The lists of a rule document hold small integers, most of them of eight bits and some
of sixteen; intervals and counts are unsigned and have thirty-two. A number that does
not fit its field is refused when the document is read, before any range is checked.
-/

namespace Recurrence

/-- The integer as a signed number of eight bits, if it fits. -/
def toInt8? (value : Int) : Option Int8 :=
  if -128 ≤ value ∧ value ≤ 127 then some (Int8.ofInt value) else none

/-- The integer as a signed number of sixteen bits, if it fits. -/
def toInt16? (value : Int) : Option Int16 :=
  if -32768 ≤ value ∧ value ≤ 32767 then some (Int16.ofInt value) else none

/-- The integer as an unsigned number of thirty-two bits, if it fits. -/
def toUInt32? (value : Int) : Option UInt32 :=
  if 0 ≤ value ∧ value < 4294967296 then some (UInt32.ofNat value.toNat) else none

theorem toInt8?_toInt (value : Int8) : toInt8? value.toInt = some value := by
  have := value.le_toInt
  have := value.toInt_lt
  rw [toInt8?, if_pos (by omega), Int8.ofInt_toInt]

theorem toInt16?_toInt (value : Int16) : toInt16? value.toInt = some value := by
  have := value.le_toInt
  have := value.toInt_lt
  rw [toInt16?, if_pos (by omega), Int16.ofInt_toInt]

theorem toUInt32?_toNat (value : UInt32) : toUInt32? (value.toNat : Int) = some value := by
  have := value.toNat_lt
  rw [toUInt32?, if_pos (by omega), Int.toNat_natCast, UInt32.ofNat_toNat]

end Recurrence
