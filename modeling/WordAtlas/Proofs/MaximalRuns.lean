import WordAtlas.Table.Runs

/-!
# Maximal runs

Runs are put together slot by slot from the last word to the first.  What comes out does not depend
on that: the runs lie end to end and no two neighbours hold the same position
(`Run.canonical_ofSlots`).  From this shape alone it follows that a run is a *maximal* stretch of
words with one position, and that every such stretch is a run.

For a table this is `Table.mem_runs_iff`, in terms of words and their positions.  Since the runs are
apart, the run that holds a word can be found by looking for it: `Table.exists_filter_runs` says
that there is exactly one.
-/

namespace WordAtlas

/-- In a list whose items are related in order, an item that passes a test is the only one if no two
that pass it are related. -/
theorem filter_eq_singleton {α : Type} {R : α → α → Prop} {test : α → Bool} {items : List α} {a : α}
    (hpairs : items.Pairwise R)
    (hclash : ∀ b ∈ items, ∀ c ∈ items, test b = true → test c = true → ¬ R b c)
    (hmem : a ∈ items) (htest : test a = true) : items.filter test = [a] := by
  have hkept : a ∈ items.filter test := List.mem_filter.mpr ⟨hmem, htest⟩
  have hpassed : ∀ b ∈ items.filter test, b ∈ items ∧ test b = true :=
    fun b hb => List.mem_filter.mp hb
  have hrelated := hpairs.filter test
  cases hfilter : items.filter test with
  | nil =>
      rw [hfilter] at hkept
      cases hkept
  | cons b rest =>
      rw [hfilter] at hkept hpassed hrelated
      cases rest with
      | nil => rw [List.mem_singleton.mp hkept]
      | cons c others =>
          obtain ⟨hb, hbtest⟩ := hpassed b (by simp)
          obtain ⟨hc, hctest⟩ := hpassed c (by simp)
          have hbc : R b c := (List.pairwise_cons.mp hrelated).1 c List.mem_cons_self
          exact absurd hbc (hclash b hb c hc hbtest hctest)

namespace Run

/-- A word lies in a run. -/
def Holds (run : Run) (w : Nat) : Prop :=
  run.first ≤ w ∧ w ≤ run.last

instance (run : Run) (w : Nat) : Decidable (run.Holds w) :=
  inferInstanceAs (Decidable (run.first ≤ w ∧ w ≤ run.last))

/-- Runs that lie end to end from the word `start` on and stand for the given slots, neighbours
being different in position. -/
inductive Canonical : Nat → List Nat → List Run → Prop
  | nil (start : Nat) : Canonical start [] []
  | cons {start count index : Nat} {slots : List Nat} {runs : List Run}
      (hdiffers : slots.head? ≠ some index)
      (tail : Canonical (start + count + 1) slots runs) :
      Canonical start (List.replicate (count + 1) index ++ slots)
        (⟨start, start + count, index⟩ :: runs)

/-- A slot in front either lengthens the first run or is a run of its own. -/
theorem Canonical.extend {start index : Nat} {slots : List Nat} {runs : List Run}
    (h : Canonical (start + 1) slots runs) :
    Canonical start (index :: slots) (extend index start runs) := by
  cases h with
  | nil => exact @Canonical.cons start 0 index [] [] (by simp) (.nil _)
  | @cons _ count held slots runs hdiffers tail =>
      rw [Run.extend]
      by_cases hsame : held = index
      · subst hsame
        rw [if_pos rfl]
        have hlast : start + 1 + count = start + (count + 1) := by omega
        rw [hlast] at tail ⊢
        exact .cons hdiffers tail
      · rw [if_neg hsame]
        have hhead : (List.replicate (count + 1) held ++ slots).head? ≠ some index := by
          rw [List.replicate_succ, List.cons_append, List.head?_cons]
          exact fun heq => hsame (Option.some.inj heq)
        exact @Canonical.cons start 0 index _ _ hhead (.cons hdiffers tail)

/-- The runs of some slots lie end to end, and neighbours differ. -/
theorem canonical_ofSlots (start : Nat) (slots : List Nat) :
    Canonical start slots (ofSlots start slots) := by
  induction slots generalizing start with
  | nil => exact .nil start
  | cons index slots ih =>
      rw [ofSlots_cons]
      exact (ih (start + 1)).extend

/-- The position that a word has, its slot being one of those that begin at the word `start`. -/
def positionFrom (start : Nat) (slots : List Nat) (w : Nat) : Option Nat :=
  if start ≤ w then slots[w - start]? else none

/-- A stretch of words with one position that can be made longer on neither side. -/
structure IsMaximal (position : Nat → Option Nat) (run : Run) : Prop where
  first_le_last : run.first ≤ run.last
  inside : ∀ w, run.Holds w → position w = some run.index
  before : ∀ w, w + 1 = run.first → position w ≠ some run.index
  behind : position (run.last + 1) ≠ some run.index

/-- Two maximal stretches that share a word do not begin at different words. -/
theorem IsMaximal.first_le {position : Nat → Option Nat} {run other : Run}
    (h : run.IsMaximal position) (h' : other.IsMaximal position) {w : Nat} (hw : run.Holds w)
    (hw' : other.Holds w) : other.first ≤ run.first := by
  have hindex : run.index = other.index :=
    Option.some.inj ((h.inside w hw).symm.trans (h'.inside w hw'))
  by_cases hle : other.first ≤ run.first
  · exact hle
  · -- The word right before the other stretch lies in this one.
    have hbefore := h'.before (other.first - 1) (by omega)
    have hinside := h.inside (other.first - 1) ⟨by omega, by have := hw.2; have := hw'.1; omega⟩
    rw [hindex] at hinside
    exact absurd hinside hbefore

/-- Two maximal stretches that share a word do not end at different words. -/
theorem IsMaximal.last_le {position : Nat → Option Nat} {run other : Run}
    (h : run.IsMaximal position) (h' : other.IsMaximal position) {w : Nat} (hw : run.Holds w)
    (hw' : other.Holds w) : run.last ≤ other.last := by
  have hindex : run.index = other.index :=
    Option.some.inj ((h.inside w hw).symm.trans (h'.inside w hw'))
  by_cases hle : run.last ≤ other.last
  · exact hle
  · have hinside := h.inside (other.last + 1) ⟨by have := hw.1; have := hw'.2; omega, by omega⟩
    rw [hindex] at hinside
    exact absurd hinside h'.behind

/-- Maximal stretches that share a word are the same. -/
theorem IsMaximal.eq_of_holds {position : Nat → Option Nat} {run other : Run}
    (h : run.IsMaximal position) (h' : other.IsMaximal position) {w : Nat} (hw : run.Holds w)
    (hw' : other.Holds w) : run = other := by
  have hfirst := Nat.le_antisymm (h'.first_le h hw' hw) (h.first_le h' hw hw')
  have hlast := Nat.le_antisymm (h.last_le h' hw hw') (h'.last_le h hw' hw)
  have hindex : run.index = other.index :=
    Option.some.inj ((h.inside w hw).symm.trans (h'.inside w hw'))
  calc run = ⟨run.first, run.last, run.index⟩ := rfl
    _ = ⟨other.first, other.last, other.index⟩ := by rw [hfirst, hlast, hindex]
    _ = other := rfl

/-- The words of a first run have its position, later words what the slots after it say. -/
theorem positionFrom_replicate_append (start count index w : Nat) (slots : List Nat) :
    positionFrom start (List.replicate (count + 1) index ++ slots) w =
      if start ≤ w ∧ w ≤ start + count then some index
      else positionFrom (start + count + 1) slots w := by
  unfold positionFrom
  by_cases hstart : start ≤ w
  · by_cases hrun : w ≤ start + count
    · rw [if_pos hstart, if_pos ⟨hstart, hrun⟩,
        List.getElem?_append_left (by rw [List.length_replicate]; omega),
        List.getElem?_replicate_of_lt (by omega)]
    · rw [if_pos hstart, if_neg (by omega), if_pos (by omega),
        List.getElem?_append_right (by rw [List.length_replicate]; omega), List.length_replicate]
      congr 1
      omega
  · rw [if_neg hstart, if_neg (by omega), if_neg (by omega)]

theorem positionFrom_start (start : Nat) (slots : List Nat) :
    positionFrom start slots start = slots.head? := by
  rw [positionFrom, if_pos (Nat.le_refl _), Nat.sub_self, List.head?_eq_getElem?]

/-- A first run is maximal if the slots after it begin with another position. -/
theorem isMaximal_first {start count index : Nat} {slots : List Nat}
    (hdiffers : slots.head? ≠ some index) :
    IsMaximal (positionFrom start (List.replicate (count + 1) index ++ slots))
      ⟨start, start + count, index⟩ where
  first_le_last := Nat.le_add_right _ _
  inside := by
    intro w hw
    rw [positionFrom_replicate_append]
    exact if_pos hw
  before := by
    intro w hw
    have hbelow : ¬ start ≤ w := by
      simp only at hw
      omega
    rw [positionFrom, if_neg hbelow]
    simp
  behind := by
    have hout : ¬ (start ≤ start + count + 1 ∧ start + count + 1 ≤ start + count) := by omega
    rw [positionFrom_replicate_append, if_neg hout, positionFrom_start]
    exact hdiffers

/-- A stretch that is maximal among the slots after a first run stays maximal with the first run in
front, which is of another position than the slots right after it. -/
theorem IsMaximal.behind_first {start count index : Nat} {slots : List Nat} {run : Run}
    (h : run.IsMaximal (positionFrom (start + count + 1) slots))
    (hdiffers : slots.head? ≠ some index) (hstart : start + count + 1 ≤ run.first) :
    run.IsMaximal (positionFrom start (List.replicate (count + 1) index ++ slots)) where
  first_le_last := h.first_le_last
  inside := by
    intro w hw
    have hfirst := hw.1
    rw [positionFrom_replicate_append, if_neg (by omega)]
    exact h.inside w hw
  before := by
    intro w hw
    rw [positionFrom_replicate_append]
    by_cases hmeets : start ≤ w ∧ w ≤ start + count
    · rw [if_pos hmeets]
      intro hsame
      -- The stretch begins right behind the first run, so the slots there begin with its position.
      have hat : run.first = start + count + 1 := by omega
      have hnext := h.inside run.first ⟨Nat.le_refl _, h.first_le_last⟩
      rw [hat, positionFrom_start] at hnext
      exact hdiffers (hnext.trans hsame.symm)
    · rw [if_neg hmeets]
      exact h.before w hw
  behind := by
    have hle := h.first_le_last
    rw [positionFrom_replicate_append, if_neg (by omega)]
    exact h.behind

namespace Canonical

variable {start : Nat} {slots : List Nat} {runs : List Run}

theorem start_le_first (h : Canonical start slots runs) : ∀ run ∈ runs, start ≤ run.first := by
  induction h with
  | nil => simp
  | cons hdiffers tail ih =>
      intro run hrun
      rcases List.mem_cons.mp hrun with rfl | hlater
      · exact Nat.le_refl _
      · have := ih run hlater
        omega

/-- The runs are in the order of their words, and no two share a word. -/
theorem pairwise (h : Canonical start slots runs) :
    runs.Pairwise fun run later => run.last < later.first := by
  induction h with
  | nil => exact .nil
  | cons hdiffers tail ih =>
      refine List.pairwise_cons.mpr ⟨?_, ih⟩
      intro later hlater
      have hstart := tail.start_le_first later hlater
      simp only
      omega

/-- Every word with a position lies in a run. -/
theorem exists_holds (h : Canonical start slots runs) {w position : Nat}
    (hw : positionFrom start slots w = some position) : ∃ run ∈ runs, run.Holds w := by
  induction h with
  | nil => simp [positionFrom] at hw
  | @cons start count index slots runs hdiffers tail ih =>
      rw [positionFrom_replicate_append] at hw
      by_cases hfirst : start ≤ w ∧ w ≤ start + count
      · exact ⟨_, List.mem_cons_self, hfirst⟩
      · rw [if_neg hfirst] at hw
        obtain ⟨run, hrun, hholds⟩ := ih hw
        exact ⟨run, List.mem_cons_of_mem _ hrun, hholds⟩

/-- Every run is maximal. -/
theorem isMaximal (h : Canonical start slots runs) :
    ∀ run ∈ runs, run.IsMaximal (positionFrom start slots) := by
  induction h with
  | nil => simp
  | cons hdiffers tail ih =>
      intro run hrun
      rcases List.mem_cons.mp hrun with rfl | hlater
      · exact isMaximal_first hdiffers
      · exact (ih run hlater).behind_first hdiffers (tail.start_le_first run hlater)

/-- The runs are the maximal stretches. -/
theorem mem_iff (h : Canonical start slots runs) {run : Run} :
    run ∈ runs ↔ run.IsMaximal (positionFrom start slots) := by
  constructor
  · intro hrun
    exact h.isMaximal run hrun
  · intro hmax
    have hfirst : run.Holds run.first := ⟨Nat.le_refl _, hmax.first_le_last⟩
    obtain ⟨other, hother, hholds⟩ := h.exists_holds (hmax.inside run.first hfirst)
    have hsame := hmax.eq_of_holds (h.isMaximal other hother) hfirst hholds
    rw [hsame]
    exact hother

end Canonical

end Run

namespace Table

variable {table : Table}

theorem positionFrom_slots (w : Nat) :
    Run.positionFrom 0 table.slots.toList w =
      if h : w < 65536 then some (table.index ⟨w, h⟩) else none := by
  rw [Run.positionFrom, if_pos (Nat.zero_le _), Nat.sub_zero, Vector.getElem?_toList]
  by_cases h : w < 65536
  · rw [dif_pos h, Vector.getElem?_eq_getElem h]
    rfl
  · rw [dif_neg h, Vector.getElem?_eq_none (by omega)]

/-- The words from `first` to `last` have one position, and no word next to them has it too. -/
structure IsStretch (table : Table) (first last index : Nat) : Prop where
  first_le_last : first ≤ last
  last_lt : last < 65536
  inside : ∀ w : Word, first ≤ w.val → w.val ≤ last → table.index w = index
  before : ∀ w : Word, w.val + 1 = first → table.index w ≠ index
  behind : ∀ w : Word, w.val = last + 1 → table.index w ≠ index

/-- **Runs are maximal.**  The runs of a table are the stretches of words of one position that can
be made longer on neither side. -/
theorem mem_runs_iff {first last index : Nat} :
    ⟨first, last, index⟩ ∈ table.runs ↔ table.IsStretch first last index := by
  have hword : ∀ w : Word, Run.positionFrom 0 table.slots.toList w.val = some (table.index w) :=
    fun w => by rw [positionFrom_slots, dif_pos w.isLt]
  rw [runs, (Run.canonical_ofSlots 0 table.slots.toList).mem_iff]
  constructor
  · intro h
    have hinside : ∀ w, first ≤ w → w ≤ last →
        Run.positionFrom 0 table.slots.toList w = some index := fun w hw hw' => h.inside w ⟨hw, hw'⟩
    have hlast := hinside last h.first_le_last (Nat.le_refl _)
    refine ⟨h.first_le_last, ?_, ?_, ?_, ?_⟩
    · by_cases hlt : last < 65536
      · exact hlt
      · rw [positionFrom_slots, dif_neg hlt] at hlast
        cases hlast
    · intro w hw hw'
      exact Option.some.inj ((hword w).symm.trans (hinside w.val hw hw'))
    · intro w hw hsame
      exact h.before w.val hw ((hword w).trans (congrArg some hsame))
    · intro w hw hsame
      have hbehind : Run.positionFrom 0 table.slots.toList (last + 1) ≠ some index := h.behind
      rw [← hw, hword, hsame] at hbehind
      exact hbehind rfl
  · intro h
    have hlast := h.last_lt
    refine ⟨h.first_le_last, ?_, ?_, ?_⟩
    · intro w hw
      have hlt : w < 65536 := Nat.lt_of_le_of_lt hw.2 hlast
      exact (hword ⟨w, hlt⟩).trans (congrArg some (h.inside ⟨w, hlt⟩ hw.1 hw.2))
    · intro w hw hsame
      have hle : w + 1 ≤ last := by
        rw [hw]
        exact h.first_le_last
      have hlt : w < 65536 := by omega
      exact h.before ⟨w, hlt⟩ hw (Option.some.inj ((hword ⟨w, hlt⟩).symm.trans hsame))
    · intro hsame
      rw [positionFrom_slots] at hsame
      by_cases hlt : last + 1 < 65536
      · rw [dif_pos hlt] at hsame
        exact h.behind ⟨last + 1, hlt⟩ rfl (Option.some.inj hsame)
      · rw [dif_neg hlt] at hsame
        cases hsame

theorem pairwise_runs : table.runs.Pairwise fun run later => run.last < later.first :=
  (Run.canonical_ofSlots 0 table.slots.toList).pairwise

/-- **One run for each word.**  Exactly one run holds a word, and it has the word's position. -/
theorem exists_filter_runs (table : Table) (w : Word) :
    ∃ run, table.runs.filter (fun run => run.Holds w.val) = [run] ∧ run ∈ table.runs ∧
      run.Holds w.val ∧ run.index = table.index w := by
  have hword : Run.positionFrom 0 table.slots.toList w.val = some (table.index w) := by
    rw [positionFrom_slots, dif_pos w.isLt]
  obtain ⟨run, hrun, hholds⟩ := (Run.canonical_ofSlots 0 table.slots.toList).exists_holds hword
  have hindex := (mem_runs_iff.mp hrun).inside w hholds.1 hholds.2
  refine ⟨run, ?_, hrun, hholds, hindex.symm⟩
  refine filter_eq_singleton pairwise_runs ?_ hrun (decide_eq_true hholds)
  intro b _ c _ hb hc hlt
  have hlast : w.val ≤ b.last := (of_decide_eq_true hb).2
  have hfirst : c.first ≤ w.val := (of_decide_eq_true hc).1
  omega

/-- Two runs that hold a word are the same. -/
theorem eq_of_holds {run other : Run} {w : Word} (hrun : run ∈ table.runs)
    (hother : other ∈ table.runs) (hw : run.Holds w.val) (hw' : other.Holds w.val) :
    run = other := by
  have hcanonical := Run.canonical_ofSlots 0 table.slots.toList
  exact (hcanonical.mem_iff.mp hrun).eq_of_holds (hcanonical.mem_iff.mp hother) hw hw'

/-- The positions of the runs are those of the words. -/
theorem exists_run_iff {position : Nat} :
    (∃ run ∈ table.runs, run.index = position) ↔ ∃ w, table.index w = position := by
  constructor
  · intro h
    obtain ⟨run, hrun, hindex⟩ := h
    have hstretch := mem_runs_iff.mp hrun
    have hfirst : run.first < 65536 := Nat.lt_of_le_of_lt hstretch.first_le_last hstretch.last_lt
    have hinside := hstretch.inside ⟨run.first, hfirst⟩ (Nat.le_refl _) hstretch.first_le_last
    exact ⟨⟨run.first, hfirst⟩, hinside.trans hindex⟩
  · intro h
    obtain ⟨w, hw⟩ := h
    obtain ⟨run, -, hrun, -, hindex⟩ := table.exists_filter_runs w
    exact ⟨run, hrun, hindex.trans hw⟩

theorem no_run_iff {position : Nat} :
    (∀ run ∈ table.runs, run.index ≠ position) ↔ ∀ w, table.index w ≠ position := by
  have h := not_congr (@exists_run_iff table position)
  simpa using h

end Table

end WordAtlas
