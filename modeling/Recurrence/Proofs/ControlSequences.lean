import Mathlib.Data.List.TakeWhile
import Recurrence.Command.Paint

/-!
# Control sequences

A terminal is told of styles by sequences of characters between those that it shows. `Paint.plain`
takes such sequences out of a text, in one pass from its beginning, and so shows what painting a
text has added: nothing but sequences (`Paint.plain_apply`).

What could go wrong is that a text ends in the beginning of a sequence, and that what stands behind
it is taken for the rest. So a text that holds no sequence stays as it is before anything with which
a sequence does not go on (`Paint.plain_append`). The sequence that turns styles off is of that
kind, and so are a blank and a line end.
-/

namespace Recurrence.Command

namespace Paint

/-- The character that begins a control sequence. -/
def escape : Char :=
  Char.ofNat 27

/-- A character of the numbers in a control sequence. -/
def isParameter (c : Char) : Bool :=
  c.isDigit || c == ';'

/-- A control sequence that turns styles on or off: their numbers, behind an escape and a bracket
and before an m. -/
def IsSequence (text : List Char) : Prop :=
  ∃ numbers : List Char, (∀ c ∈ numbers, isParameter c = true) ∧
    text = escape :: '[' :: (numbers ++ ['m'])

/-- No part of a text is a control sequence. -/
def Unpainted (text : List Char) : Prop :=
  ∀ sequence, IsSequence sequence → ¬ sequence <:+: text

theorem unpainted_of_notMem {text : List Char} (h : escape ∉ text) : Unpainted text := by
  rintro _ ⟨numbers, -, rfl⟩ hpart
  exact h (hpart.subset List.mem_cons_self)

/-- What follows the control sequence with which a text begins, if it begins with one. -/
def behindSequence? : List Char → Option (List Char)
  | c :: '[' :: text =>
      match text.dropWhile isParameter with
      | 'm' :: behind => if c = escape then some behind else none
      | _ => none
  | _ => none

theorem behindSequence?_eq_some_iff {text behind : List Char} :
    behindSequence? text = some behind ↔
      ∃ sequence, IsSequence sequence ∧ text = sequence ++ behind := by
  constructor
  · intro h
    unfold behindSequence? at h
    split at h
    next c text =>
      split at h
      next rest hrest =>
        split at h
        next hescape =>
          cases h
          have htext := List.takeWhile_append_dropWhile (p := isParameter) (l := text)
          rw [hrest] at htext
          refine ⟨_, ⟨text.takeWhile isParameter, fun d hd => List.mem_takeWhile_imp hd, rfl⟩, ?_⟩
          rw [hescape, List.cons_append, List.cons_append, List.append_assoc,
            List.singleton_append, htext]
        next => cases h
      next => cases h
    next => cases h
  · rintro ⟨_, ⟨numbers, hnumbers, rfl⟩, rfl⟩
    have hrest : (numbers ++ 'm' :: behind).dropWhile isParameter = 'm' :: behind := by
      rw [List.dropWhile_append_of_pos hnumbers, List.dropWhile_cons_of_neg (by decide)]
    simp only [List.cons_append, List.append_assoc, List.nil_append, behindSequence?, hrest,
      if_true]

theorem length_lt_of_behindSequence? {text behind : List Char}
    (h : behindSequence? text = some behind) : behind.length < text.length := by
  obtain ⟨_, ⟨numbers, -, rfl⟩, rfl⟩ := behindSequence?_eq_some_iff.1 h
  simp only [List.cons_append, List.append_assoc, List.length_cons, List.length_append]
  omega

/-- A text without its control sequences. -/
def plain (text : List Char) : List Char :=
  match _h : behindSequence? text with
  | some behind => plain behind
  | none =>
      match text with
      | [] => []
      | c :: rest => c :: plain rest
termination_by text.length
decreasing_by
  · exact length_lt_of_behindSequence? _h
  · exact Nat.lt_succ_self _

theorem plain_nil : plain [] = [] := by
  rw [plain.eq_def]
  rfl

theorem plain_sequence {sequence : List Char} (h : IsSequence sequence) (rest : List Char) :
    plain (sequence ++ rest) = plain rest := by
  have hbehind : behindSequence? (sequence ++ rest) = some rest :=
    behindSequence?_eq_some_iff.2 ⟨sequence, h, rfl⟩
  rw [plain.eq_def]
  split
  next behind hsome =>
    rw [hbehind] at hsome
    cases hsome
    rfl
  next hnone =>
    rw [hbehind] at hnone
    cases hnone

theorem plain_cons {c : Char} {rest : List Char}
    (h : ∀ sequence, IsSequence sequence → ¬ sequence <+: c :: rest) :
    plain (c :: rest) = c :: plain rest := by
  rw [plain.eq_def]
  split
  next behind hsome =>
    obtain ⟨sequence, hsequence, htext⟩ := behindSequence?_eq_some_iff.1 hsome
    exact absurd ⟨behind, htext.symm⟩ (h sequence hsequence)
  next => rfl

theorem plain_cons_of_ne {c : Char} (h : c ≠ escape) (rest : List Char) :
    plain (c :: rest) = c :: plain rest := by
  refine plain_cons ?_
  rintro _ ⟨numbers, -, rfl⟩ hfront
  exact h (List.cons_prefix_cons.1 hfront).1.symm

theorem plain_replicate (count : Nat) (rest : List Char) :
    plain (List.replicate count ' ' ++ rest) = List.replicate count ' ' ++ plain rest := by
  induction count with
  | zero => rfl
  | succ count ih =>
      rw [List.replicate_succ, List.cons_append, plain_cons_of_ne (by decide), ih,
        List.cons_append]

/-- A character with which a control sequence goes on behind its first one. -/
def goesOn (c : Char) : Bool :=
  c == '[' || c == 'm' || isParameter c

theorem IsSequence.goesOn_of_mem_tail {sequence : List Char} (h : IsSequence sequence) {c : Char}
    (hc : c ∈ sequence.tail) : goesOn c = true := by
  obtain ⟨numbers, hnumbers, rfl⟩ := h
  simp only [List.tail_cons, List.mem_cons, List.mem_append, List.not_mem_nil, or_false] at hc
  rcases hc with rfl | hc | rfl
  · rfl
  · rw [goesOn, hnumbers c hc, Bool.or_true]
  · rfl

/-- A text does not begin with the rest of a control sequence. -/
def Separates (text : List Char) : Prop :=
  ∀ c ∈ text.head?, goesOn c = false

theorem separates_cons {c : Char} (h : goesOn c = false) (rest : List Char) :
    Separates (c :: rest) := by
  rintro _ ⟨⟩
  exact h

theorem separates_sequence {sequence : List Char} (h : IsSequence sequence) (rest : List Char) :
    Separates (sequence ++ rest) := by
  obtain ⟨numbers, -, rfl⟩ := h
  exact separates_cons (by decide) _

/-- A sequence that begins in a text ends in it, if what follows does not go on with one. -/
theorem IsSequence.front_of_append {sequence text rest : List Char} (h : IsSequence sequence)
    (hne : text ≠ []) (hrest : Separates rest) (hfront : sequence <+: text ++ rest) :
    sequence <+: text := by
  obtain ⟨behind, heq⟩ := hfront
  rcases List.append_eq_append_iff.1 heq with ⟨remains, htext, -⟩ | ⟨later, hlater, hbehind⟩
  · exact ⟨remains, htext.symm⟩
  · cases later with
    | nil =>
        rw [List.append_nil] at hlater
        exact hlater ▸ List.prefix_refl _
    | cons d later =>
        -- The first character behind the text would be one of the sequence, and not its first.
        have hd : d ∈ sequence.tail := by
          rw [hlater, List.tail_append_of_ne_nil hne]
          exact List.mem_append_right _ List.mem_cons_self
        have hgoesOn := h.goesOn_of_mem_tail hd
        rw [hrest d (by rw [hbehind]; rfl)] at hgoesOn
        cases hgoesOn

/-- A text without control sequences stays as it is before such a rest. -/
theorem plain_append {text rest : List Char} (h : Unpainted text) (hrest : Separates rest) :
    plain (text ++ rest) = text ++ plain rest := by
  induction text with
  | nil => rfl
  | cons c text ih =>
      have htext : Unpainted text := fun sequence hsequence hpart =>
        h sequence hsequence (hpart.trans (List.suffix_cons c text).isInfix)
      rw [List.cons_append, plain_cons, ih htext, List.cons_append]
      intro sequence hsequence hfront
      exact h sequence hsequence
        (hsequence.front_of_append (List.cons_ne_nil c text) hrest hfront).isInfix

/-- A text keeps all its characters when the control sequences around it are taken out. -/
def Stays (text : List Char) : Prop :=
  ∀ rest, Separates rest → plain (text ++ rest) = text ++ plain rest

theorem Unpainted.stays {text : List Char} (h : Unpainted text) : Stays text :=
  fun _ => plain_append h

theorem isSequence_reset : IsSequence [escape, '[', '0', 'm'] :=
  ⟨['0'], List.all_eq_true.1 (by decide), rfl⟩

theorem isSequence_code (paint : Paint) :
    IsSequence (escape :: '[' :: (paint.code.toList ++ ['m'])) := by
  refine ⟨paint.code.toList, List.all_eq_true.1 ?_, rfl⟩
  cases paint <;> decide

/-- Painting a text adds control sequences only. -/
theorem plain_apply (paint : Paint) {text : List Char} (h : Stays text) (rest : List Char) :
    plain (paint.apply true text ++ rest) = text ++ plain rest := by
  have happly : paint.apply true text ++ rest =
      (escape :: '[' :: (paint.code.toList ++ ['m'])) ++
        (text ++ ([escape, '[', '0', 'm'] ++ rest)) := by
    simp [apply, escape]
  rw [happly, plain_sequence (isSequence_code paint),
    h _ (separates_sequence isSequence_reset rest), plain_sequence isSequence_reset]

end Paint

end Recurrence.Command
