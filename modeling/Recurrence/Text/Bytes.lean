/-!
# Cutting a text at a byte

A text is stored in bytes, one to four for a character. It can be cut between any two
characters, but a place given as a number of bytes may lie inside of a character or
behind the end, and then there is nothing to cut. `cutAt_eq_some_iff` says that a cut
that is made is made there and loses nothing.
-/

namespace Recurrence.Text

/-- Number of bytes in which a text is stored. -/
def byteLength : List Char → Nat
  | [] => 0
  | c :: text => c.utf8Size + byteLength text

/-- The first so many bytes of a text and what follows them, if a cut can be made there. -/
def cutAt : Nat → List Char → Option (List Char × List Char)
  | 0, text => some ([], text)
  | _ + 1, [] => none
  | bytes + 1, c :: text =>
      if c.utf8Size ≤ bytes + 1 then
        (cutAt (bytes + 1 - c.utf8Size) text).map fun (front, rest) => (c :: front, rest)
      else
        none

theorem byteLength_append (front rest : List Char) :
    byteLength (front ++ rest) = byteLength front + byteLength rest := by
  induction front with
  | nil => simp [byteLength]
  | cons c front ih => rw [List.cons_append, byteLength, byteLength, ih, Nat.add_assoc]

theorem eq_nil_of_byteLength_eq_zero {text : List Char} (h : byteLength text = 0) : text = [] := by
  cases text with
  | nil => rfl
  | cons c text =>
      have hpos := c.utf8Size_pos
      rw [byteLength] at h
      omega

/-- A cut divides a text into its two parts, the first of them as long as asked for. -/
theorem cutAt_eq_some_iff {bytes : Nat} {text front rest : List Char} :
    cutAt bytes text = some (front, rest) ↔ text = front ++ rest ∧ byteLength front = bytes := by
  fun_induction cutAt bytes text generalizing front with
  | case1 text =>
      constructor
      · intro h
        cases h
        exact ⟨rfl, rfl⟩
      · rintro ⟨rfl, hlength⟩
        rw [eq_nil_of_byteLength_eq_zero hlength]
        rfl
  | case2 bytes =>
      constructor
      · intro h
        cases h
      · rintro ⟨happend, hlength⟩
        rw [(List.append_eq_nil_iff.1 happend.symm).1] at hlength
        cases hlength
  | case3 bytes c text hfits ih =>
      rw [Option.map_eq_some_iff]
      constructor
      · rintro ⟨⟨before, behind⟩, hcut, heq⟩
        cases heq
        obtain ⟨rfl, hlength⟩ := ih.1 hcut
        refine ⟨rfl, ?_⟩
        rw [byteLength]
        omega
      · rintro ⟨happend, hlength⟩
        cases front with
        | nil => cases hlength
        | cons first front =>
            rw [List.cons_append, List.cons_eq_cons] at happend
            obtain ⟨rfl, rfl⟩ := happend
            rw [byteLength] at hlength
            exact ⟨(front, rest), ih.2 ⟨rfl, by omega⟩, rfl⟩
  | case4 bytes c text hwide =>
      constructor
      · intro h
        cases h
      · rintro ⟨happend, hlength⟩
        cases front with
        | nil => cases hlength
        | cons first front =>
            rw [List.cons_append, List.cons_eq_cons] at happend
            obtain ⟨rfl, -⟩ := happend
            rw [byteLength] at hlength
            omega

end Recurrence.Text
