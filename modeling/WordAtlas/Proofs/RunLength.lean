import Mathlib.Data.List.Chain
import Mathlib.Data.List.Forall2
import WordAtlas.Proofs.MaximalRuns

/-!
# Runs as a run-length encoding

The runs of a table stand for its slots one by one, so they are an encoding of the slots.  This file
shows that it is the shortest there is.  Slots of one position, put in front of others, cost at most
one more run (`Run.length_ofSlots_replicate_append_le`); so whatever runs stand for some slots, the
runs of these slots are no more of them (`Run.length_ofSlots_le`).

The main statement is `Table.runs_are_run_length_encoding`.  It holds of every table, also of one
whose slots were given directly.
-/

namespace WordAtlas

namespace Run

/-! ## From run to run -/

namespace Canonical

variable {start : Nat} {slots : List Nat} {runs : List Run}

/-- The first run begins at the first word and has the position of the first slot. -/
theorem of_mem_head? (h : Canonical start slots runs) {run : Run} (hrun : run ∈ runs.head?) :
    run.first = start ∧ slots.head? = some run.index := by
  cases h with
  | nil => cases hrun
  | cons hdiffers tail =>
      cases hrun
      exact ⟨rfl, by rw [List.replicate_succ]; rfl⟩

/-- Each run begins right behind the one before it and has another position. -/
theorem isChain (h : Canonical start slots runs) :
    runs.IsChain fun run next => next.first = run.last + 1 ∧ run.index ≠ next.index := by
  induction h with
  | nil => exact .nil
  | cons hdiffers tail ih =>
      refine ih.cons ?_
      intro next hnext
      obtain ⟨hfirst, hhead⟩ := tail.of_mem_head? hnext
      rw [hhead] at hdiffers
      exact ⟨hfirst, fun heq => hdiffers (congrArg some heq.symm)⟩

/-- The last run ends at the last word. -/
theorem of_mem_getLast? (h : Canonical start slots runs) {run : Run} (hrun : run ∈ runs.getLast?) :
    run.last + 1 = start + slots.length := by
  induction h with
  | nil => cases hrun
  | @cons start count index slots runs hdiffers tail ih =>
      rw [List.length_append, List.length_replicate]
      cases tail with
      | nil =>
          rw [List.getLast?_singleton] at hrun
          cases hrun
          simp only [List.length_nil]
          omega
      | cons hdiffers' tail' =>
          have hlast := ih hrun
          omega

end Canonical

/-! ## The shortest encoding -/

theorem head?_extend (index word : Nat) (runs : List Run) :
    (extend index word runs).head?.map Run.index = some index := by
  cases runs with
  | nil => rfl
  | cons run rest =>
      rw [extend]
      split
      · rename_i hsame
        exact congrArg some hsame
      · rfl

theorem length_extend (index word : Nat) (runs : List Run) :
    (extend index word runs).length =
      if runs.head?.map Run.index = some index then runs.length else runs.length + 1 := by
  cases runs with
  | nil => rfl
  | cons run rest =>
      rw [extend]
      by_cases hsame : run.index = index <;> simp [hsame]

theorem head?_ofSlots (start : Nat) (slots : List Nat) :
    (ofSlots start slots).head?.map Run.index = slots.head? := by
  cases slots with
  | nil => rfl
  | cons index slots => rw [ofSlots_cons, head?_extend, List.head?_cons]

/-- Slots of one position in front of others cost at most one more run. -/
theorem length_ofSlots_replicate_append_le (start count index : Nat) (slots : List Nat) :
    (ofSlots start (List.replicate count index ++ slots)).length ≤
      (ofSlots (start + count) slots).length + 1 := by
  induction count generalizing start with
  | zero => exact Nat.le_succ _
  | succ count ih =>
      have hnext := ih (start + 1)
      rw [Nat.add_right_comm] at hnext
      rw [List.replicate_succ, List.cons_append, ofSlots_cons, length_extend, head?_ofSlots]
      cases count with
      | zero =>
          -- A single slot in front either lengthens the first run or is a run of its own.
          simp only [List.replicate_zero, List.nil_append]
          split
          · exact Nat.le_succ _
          · exact Nat.le_refl _
      | succ count =>
          rw [List.replicate_succ, List.cons_append, List.head?_cons, if_pos rfl]
          exact hnext

/-- **No shorter list of runs.**  Whatever runs stand for some slots, the runs of these slots are no
more of them. -/
theorem length_ofSlots_le (start : Nat) (runs : List Run) :
    (ofSlots start (runs.flatMap expand)).length ≤ runs.length := by
  induction runs generalizing start with
  | nil => exact Nat.le_refl _
  | cons run rest ih =>
      rw [List.flatMap_cons, expand, List.length_cons]
      exact Nat.le_trans (length_ofSlots_replicate_append_le _ _ _ _)
        (Nat.succ_le_succ (ih _))

/-- Three runs, although only two positions occur. -/
example : ofSlots 0 [7, 7, 0, 7] = [⟨0, 1, 7⟩, ⟨2, 2, 0⟩, ⟨3, 3, 7⟩] := rfl

end Run

namespace Table

/-- The run-length encoding of a table: a list of runs that stands for its slots and is as short as
can be. -/
structure IsRunLengthEncoding (table : Table) (runs : List Run) : Prop where
  first_word : runs.head?.map Run.first = some 0
  last_word : runs.getLast?.map Run.last = some 65535
  first_le_last : ∀ run ∈ runs, run.first ≤ run.last
  end_to_end : runs.IsChain fun run next => next.first = run.last + 1
  inside : ∀ run ∈ runs, ∀ w : Word, run.first ≤ w.val → w.val ≤ run.last →
    table.index w = run.index
  differ : runs.IsChain fun run next => run.index ≠ next.index
  expanded : runs.flatMap Run.expand = table.slots.toList
  shortest : ∀ others : List Run, others.flatMap Run.expand = table.slots.toList →
    runs.length ≤ others.length

/-- A run is shown with its words and the definition at its position. -/
structure Shows (table : Table) (run : Run) (shown : ShownRun) : Prop where
  first : shown.first = run.first
  last : shown.last = run.last
  definition : table.definitionAt? run.index = some shown.definition

theorem shows_of_mem_runs {table : Table} {run : Run} (hrun : run ∈ table.runs) :
    table.Shows run ⟨run.first, run.last, table.decode (Fin.ofNat 65536 run.first)⟩ where
  first := rfl
  last := rfl
  definition := by
    have hstretch := mem_runs_iff.mp hrun
    have hfirst : run.first < 65536 := Nat.lt_of_le_of_lt hstretch.first_le_last hstretch.last_lt
    have hval : (Fin.ofNat 65536 run.first).val = run.first := Nat.mod_eq_of_lt hfirst
    have hindex := hstretch.inside (Fin.ofNat 65536 run.first) (Nat.le_of_eq hval.symm)
      (Nat.le_trans (Nat.le_of_eq hval) hstretch.first_le_last)
    rw [← hindex, definitionAt?_index]

/-- **Runs are the run-length encoding.**  The runs of any table, shown with the definitions at
their positions, go from the first word to the last without gap; each holds words of one position,
and neighbours differ.  So they stand for the slots, and no fewer runs do. -/
theorem runs_are_run_length_encoding (table : Table) :
    table.IsRunLengthEncoding table.runs ∧
      List.Forall₂ table.Shows table.runs table.shownRuns := by
  have hcanonical := Run.canonical_ofSlots 0 table.slots.toList
  obtain ⟨first, -, hfirst, -, -⟩ := table.exists_filter_runs 0
  have hne : table.runs ≠ [] := List.ne_nil_of_mem hfirst
  have hexpanded : table.runs.flatMap Run.expand = table.slots.toList :=
    Run.flatMap_expand_ofSlots 0 table.slots.toList
  constructor
  · refine ⟨?_, ?_, fun run hrun => (mem_runs_iff.mp hrun).first_le_last,
      hcanonical.isChain.imp fun _ _ h => h.1, fun run hrun => (mem_runs_iff.mp hrun).inside,
      hcanonical.isChain.imp fun _ _ h => h.2, hexpanded, ?_⟩
    · have hhead := hcanonical.of_mem_head? (List.head_mem_head? hne)
      rw [List.head?_eq_some_head hne, Option.map_some, hhead.1]
    · have hlast := hcanonical.of_mem_getLast? (List.getLast_mem_getLast? hne)
      rw [Vector.length_toList] at hlast
      rw [List.getLast?_eq_some_getLast hne, Option.map_some]
      exact congrArg some (by omega)
    · intro others hothers
      rw [runs, ← hothers]
      exact Run.length_ofSlots_le 0 others
  · exact List.forall₂_map_right_iff.mpr (List.forall₂_same.mpr fun run => shows_of_mem_runs)

end Table

end WordAtlas
