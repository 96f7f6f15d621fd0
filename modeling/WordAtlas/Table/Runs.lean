import WordAtlas.Table

/-!
# Runs

Neighbouring words mostly have the same definition, so a table is listed as runs: stretches of words
whose slots hold the same position.  Going through the slots from the last to the first, each either
lengthens the run that begins right after it or begins a new one.  So the runs lie end to end and
neighbours differ in position.  Nothing is lost: expanding the runs gives the slots back
(`flatMap_expand_ofSlots`).

Positions mean nothing outside their table.  `Table.shownRuns` lists the runs with definitions.
-/

namespace WordAtlas

/-- A stretch of words, first and last included, with the position that all of their slots hold. -/
structure Run where
  first : Nat
  last : Nat
  index : Nat
deriving DecidableEq, Repr

namespace Run

/-- Puts the slot of the word `word` in front of the runs of the words after it. -/
def extend (index word : Nat) : List Run → List Run
  | [] => [⟨word, word, index⟩]
  | run :: rest =>
      if run.index = index then { run with first := word } :: rest
      else ⟨word, word, index⟩ :: run :: rest

/-- The runs of a list of slots, whose first word is `start`. -/
def ofSlots (start : Nat) (slots : List Nat) : List Run :=
  (slots.zipIdx start).foldr (fun slot runs => extend slot.1 slot.2 runs) []

/-- The slots that a run stands for. -/
def expand (run : Run) : List Nat :=
  List.replicate (run.last + 1 - run.first) run.index

@[simp] theorem ofSlots_nil (start : Nat) : ofSlots start [] = [] :=
  rfl

@[simp] theorem ofSlots_cons (start index : Nat) (slots : List Nat) :
    ofSlots start (index :: slots) = extend index start (ofSlots (start + 1) slots) :=
  rfl

/-- The runs of some slots begin with a run that starts at the first word. -/
theorem first_of_ofSlots_eq_cons {start : Nat} {slots : List Nat} {run : Run} {rest : List Run}
    (h : ofSlots start slots = run :: rest) : run.first = start ∧ run.first ≤ run.last := by
  induction slots generalizing start run rest with
  | nil => simp at h
  | cons index slots ih =>
      rw [ofSlots_cons] at h
      cases hlater : ofSlots (start + 1) slots with
      | nil =>
          rw [hlater, extend] at h
          cases h
          exact ⟨rfl, Nat.le_refl _⟩
      | cons next others =>
          rw [hlater, extend] at h
          have hnext := ih hlater
          split at h
          · cases h
            exact ⟨rfl, by simp only; omega⟩
          · cases h
            exact ⟨rfl, Nat.le_refl _⟩

/-- **Nothing is lost.**  The runs of some slots stand for these slots. -/
theorem flatMap_expand_ofSlots (start : Nat) (slots : List Nat) :
    (ofSlots start slots).flatMap expand = slots := by
  induction slots generalizing start with
  | nil => rfl
  | cons index slots ih =>
      have htail := ih (start + 1)
      rw [ofSlots_cons]
      cases hlater : ofSlots (start + 1) slots with
      | nil =>
          rw [hlater] at htail
          rw [← htail]
          simp [extend, expand]
      | cons next others =>
          have ⟨hfirst, hlast⟩ := first_of_ofSlots_eq_cons hlater
          rw [hlater, List.flatMap_cons] at htail
          rw [extend, ← htail]
          split
          · rename_i hindex
            have hcount : next.last + 1 - start = (next.last + 1 - next.first) + 1 := by omega
            rw [List.flatMap_cons, ← List.cons_append]
            congr 1
            simp only [expand, hcount, List.replicate_succ, hindex]
          · rw [List.flatMap_cons, List.flatMap_cons]
            simp [expand]

end Run

/-- The runs of a table, in the order of the words. -/
def Table.runs (table : Table) : List Run :=
  Run.ofSlots 0 table.slots.toList

/-- A run as it is shown: with a definition, which is compared by value, in place of a position. -/
structure ShownRun where
  first : Nat
  last : Nat
  definition : Definition
deriving DecidableEq, Repr

/-- The runs of a table with the definitions of their first words. -/
def Table.shownRuns (table : Table) : List ShownRun :=
  table.runs.map fun run => ⟨run.first, run.last, table.decode (Fin.ofNat 65536 run.first)⟩

end WordAtlas
