import WordAtlas.Text.Hex

/-!
# Instruction words

An instruction word is sixteen bits wide.  Numbers from outside (arguments, streams, requests) are
integers of any size; `Word.ofInt` admits those from 0 to 65535 and refuses every other one by
naming it.
-/

namespace WordAtlas

/-- An instruction word: sixteen bits, read as a number. -/
abbrev Word := Fin 65536

/-- Numerals denote words.  The zero is named, because other libraries bring one of their own. -/
instance instNeZeroWords : @NeZero Nat Zero.ofOfNat0 65536 := ⟨Nat.succ_ne_zero 65535⟩

namespace Word

/-- A number that is no instruction word. -/
structure OutOfRange where
  value : Int
deriving DecidableEq, Repr

/-- The message about a number that is no instruction word. -/
def OutOfRange.message (e : OutOfRange) : String :=
  s!"Instruction word out of range: {Text.Hex.ofInt e.value}"

/-- The instruction word of a number, if it has one. -/
def ofInt (z : Int) : Except OutOfRange Word :=
  if h : 0 ≤ z ∧ z < 65536 then .ok ⟨z.toNat, by omega⟩ else .error ⟨z⟩

/-- The numbers that are words are those that a word has as its value. -/
theorem ofInt_eq_ok_iff {z : Int} {w : Word} : ofInt z = .ok w ↔ z = (w.val : Int) := by
  unfold ofInt
  split
  · rename_i h
    constructor
    · intro heq
      cases heq
      exact (Int.toNat_of_nonneg h.1).symm
    · rintro rfl
      rfl
  · rename_i h
    have := w.isLt
    constructor
    · intro heq
      cases heq
    · rintro rfl
      omega

/-- Every word is the word of its own value. -/
@[simp] theorem ofInt_val (w : Word) : ofInt (w.val : Int) = .ok w :=
  ofInt_eq_ok_iff.mpr rfl

/-- A refused number is named, and it lies outside the range. -/
theorem ofInt_eq_error_iff {z : Int} {e : OutOfRange} :
    ofInt z = .error e ↔ e = ⟨z⟩ ∧ ¬ (0 ≤ z ∧ z < 65536) := by
  unfold ofInt
  split
  · rename_i h
    simp [h]
  · rename_i h
    simp only [Except.error.injEq, h, not_false_eq_true, and_true]
    exact eq_comm

end Word

end WordAtlas
