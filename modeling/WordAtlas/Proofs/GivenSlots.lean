import WordAtlas.Proofs.LookedUpWords

/-!
# Given slots

A table can also be made of numbers that are given for its slots.  There must be one for every word,
and a slot keeps the low sixteen bits of its number.  What a slot keeps is never negative, so no
number counts from the end of the definitions; if one is no position, there is no table.

Decoding one word, decoding a batch and counting the unknown words all use what the slots keep
(`MadeOf`).  The main statement is `ofSlots_exact`.
-/

namespace WordAtlas.Table

/-- A table whose slots keep the low sixteen bits of the given numbers. -/
structure MadeOf (table : Table) (options : OverlaySet) (definitions : Array Definition)
    (numbers : List Int) : Prop where
  same_options : table.options = options
  same_definitions : table.definitions = definitions
  decode : ∀ (w : Word) (z : Int), numbers[w.val]? = some z →
    definitions[(z % 65536).toNat]? = some (table.decode w)
  batch : ∀ (w : Word) (z : Int), numbers[w.val]? = some z →
    table.decodeBatch (.ofList [.integer w.val]) = .ok (.ofList [(z % 65536).toNat])
  unknown : table.unknownCount = numbers.countP fun z => 65536 ∣ z

variable {options : OverlaySet} {definitions : Array Definition} {numbers : List Int}

theorem size_kept (hcount : numbers.length = 65536) :
    (numbers.map fun z => (z % 65536).toNat).toArray.size = 65536 := by
  rw [List.size_toArray, List.length_map, hcount]

/-- The numbers that slots keep, of which there is one for every word. -/
def kept (numbers : List Int) (hcount : numbers.length = 65536) : Vector Nat 65536 :=
  ⟨(numbers.map fun z => (z % 65536).toNat).toArray, size_kept hcount⟩

theorem toList_kept (hcount : numbers.length = 65536) :
    (kept numbers hcount).toList = numbers.map fun z => (z % 65536).toNat :=
  rfl

/-- The slots that are kept are all in range exactly if the numbers modulo 65536 are. -/
theorem all_kept_lt_iff (hcount : numbers.length = 65536) :
    (kept numbers hcount).all (· < definitions.size) = true ↔
      ∀ z ∈ numbers, z % 65536 < definitions.size := by
  rw [kept, Vector.all_mk, List.all_toArray, List.all_map, List.all_eq_true]
  apply forall₂_congr
  intro z _
  rw [Function.comp_apply, decide_eq_true_iff]
  omega

/-- Numbers that are in range make a table whose slots are what is kept of them. -/
theorem ofSlots_of_fits (hcount : numbers.length = 65536)
    (hfits : ∀ z ∈ numbers, z % 65536 < definitions.size) :
    ∃ table, ofSlots options definitions numbers = .ok table ∧ table.options = options ∧
      table.definitions = definitions ∧ table.slots = kept numbers hcount := by
  have hpositions := (all_kept_lt_iff hcount).mpr hfits
  unfold ofSlots
  rw [dif_pos hcount]
  exact ⟨_, dif_pos hpositions, rfl, rfl, rfl⟩

/-- The count is refused exactly if it is not that of the words. -/
theorem ofSlots_eq_slotCount_iff :
    ofSlots options definitions numbers = .error .slotCount ↔ numbers.length ≠ 65536 := by
  unfold ofSlots
  by_cases hcount : numbers.length = 65536
  · rw [dif_pos hcount]
    dsimp only
    split <;> simp [hcount]
  · rw [dif_neg hcount]
    simp [hcount]

/-- Of numbers in the right count, a position is refused exactly if one of them is out of range. -/
theorem ofSlots_eq_position_iff (hcount : numbers.length = 65536) :
    ofSlots options definitions numbers = .error .position ↔
      ∃ z ∈ numbers, definitions.size ≤ z % 65536 := by
  by_cases hfits : ∀ z ∈ numbers, z % 65536 < definitions.size
  · obtain ⟨table, hmade, -⟩ := @ofSlots_of_fits options _ _ hcount hfits
    rw [hmade]
    simpa using hfits
  · have hpositions := (all_kept_lt_iff hcount).not.mpr hfits
    have hrefused : ofSlots options definitions numbers = .error .position := by
      unfold ofSlots
      rw [dif_pos hcount]
      exact dif_neg hpositions
    simpa [hrefused] using hfits

/-- A word is at the position that its slot keeps. -/
theorem index_of_kept {table : Table} {hcount : numbers.length = 65536}
    (hslots : table.slots = kept numbers hcount) {w : Word} {z : Int}
    (hz : numbers[w.val]? = some z) : table.index w = (z % 65536).toNat := by
  obtain ⟨hw, rfl⟩ := List.getElem?_eq_some_iff.mp hz
  rw [index, hslots]
  change (kept numbers hcount)[w.val] = _
  simp only [kept, Vector.getElem_mk, List.getElem_toArray, List.getElem_map]

/-- The unknown words are those whose numbers are multiples of 65536. -/
theorem unknownCount_of_kept {table : Table} {hcount : numbers.length = 65536}
    (hslots : table.slots = kept numbers hcount) :
    table.unknownCount = numbers.countP fun z => 65536 ∣ z := by
  rw [unknownCount, hslots, toList_kept, List.count_eq_countP, List.countP_map]
  apply List.countP_congr
  intro z _
  rw [Function.comp_apply, beq_iff_eq, decide_eq_true_iff]
  omega

/-- Only the remainders of the numbers matter. -/
theorem ofSlots_congr {others : List Int}
    (h : numbers.map (· % 65536) = others.map (· % 65536)) :
    ofSlots options definitions numbers = ofSlots options definitions others := by
  have hkept : numbers.map (fun z => (z % 65536).toNat) =
      others.map fun z => (z % 65536).toNat := by
    have htoNat := congrArg (List.map Int.toNat) h
    rw [List.map_map, List.map_map] at htoNat
    exact htoNat
  have hlength : numbers.length = others.length := by
    have hlength := congrArg List.length h
    rw [List.length_map, List.length_map] at hlength
    exact hlength
  simp only [ofSlots, hkept, hlength]

/-- A table is made of the numbers that its slots keep. -/
theorem madeOf_of_kept {table : Table} {hcount : numbers.length = 65536}
    (hslots : table.slots = kept numbers hcount) :
    table.MadeOf table.options table.definitions numbers where
  same_options := rfl
  same_definitions := rfl
  decode := by
    intro w z hz
    rw [← index_of_kept hslots hz]
    exact definitionAt?_index table w
  batch := by
    intro w z hz
    rw [← index_of_kept hslots hz]
    exact decodeBatch_words table [w]
  unknown := unknownCount_of_kept hslots

/-- **Given slots are checked exactly.**  A table is made unless there is not one number for every
word, or the low sixteen bits of some number are no position.  Every word then decodes to the
definition at the position that the low sixteen bits of its number are, a batch finds that position,
and the unknown words are those whose number is a multiple of 65536.  Numbers that agree in their
low sixteen bits, as a negative one does with one that is not negative, are the same to a table. -/
theorem ofSlots_exact (options : OverlaySet) (definitions : Array Definition)
    (numbers : List Int) :
    (ofSlots options definitions numbers = .error .slotCount ↔ numbers.length ≠ 65536) ∧
    (numbers.length = 65536 →
      (ofSlots options definitions numbers = .error .position ↔
        ∃ z ∈ numbers, definitions.size ≤ z % 65536) ∧
      ((∀ z ∈ numbers, z % 65536 < definitions.size) →
        ∃ table, ofSlots options definitions numbers = .ok table ∧
          table.MadeOf options definitions numbers)) ∧
    ∀ others : List Int, numbers.map (· % 65536) = others.map (· % 65536) →
      ofSlots options definitions numbers = ofSlots options definitions others := by
  refine ⟨ofSlots_eq_slotCount_iff, fun hcount => ⟨ofSlots_eq_position_iff hcount, ?_⟩,
    fun _ => ofSlots_congr⟩
  intro hfits
  obtain ⟨table, hmade, rfl, rfl, hslots⟩ := @ofSlots_of_fits options _ _ hcount hfits
  exact ⟨table, hmade, madeOf_of_kept hslots⟩

/-- The number -65535 stands for position 1, with two definitions as with any other number of them,
and -1 stands for no position of two. -/
theorem ofSlots_instructionPair :
    (List.replicate 65536 (-65535 : Int)).length = 65536 ∧
      (∀ z ∈ List.replicate 65536 (-65535 : Int), z % 65536 < instructionPair.toArray.size) ∧
      (∃ table, ofSlots .empty instructionPair.toArray (List.replicate 65536 (-65535)) = .ok table ∧
        (∀ w, (table.decode w).name = "STORE") ∧ table.unknownCount = 0) ∧
      ofSlots .empty instructionPair.toArray (List.replicate 65536 (-65535)) =
        ofSlots .empty instructionPair.toArray (List.replicate 65536 1) ∧
      ofSlots .empty instructionPair.toArray (List.replicate 65536 (-1)) = .error .position := by
  have hcount : ∀ z : Int, (List.replicate 65536 z).length = 65536 := fun _ => List.length_replicate
  have hfits : ∀ z ∈ List.replicate 65536 (-65535 : Int),
      z % 65536 < instructionPair.toArray.size := by
    intro z hz
    rw [List.eq_of_mem_replicate hz]
    decide
  have hsame : (List.replicate 65536 (-65535 : Int)).map (· % 65536) =
      (List.replicate 65536 1).map (· % 65536) := by
    rw [List.map_replicate, List.map_replicate]
    rfl
  obtain ⟨-, hchecked, hcongr⟩ :=
    ofSlots_exact .empty instructionPair.toArray (List.replicate 65536 (-65535))
  obtain ⟨table, hmade, htable⟩ := (hchecked (hcount _)).2 hfits
  have hrefused := ((ofSlots_exact .empty instructionPair.toArray
    (List.replicate 65536 (-1))).2.1 (hcount _)).1
  refine ⟨hcount _, hfits, ⟨table, hmade, fun w => ?_, ?_⟩, hcongr _ hsame, hrefused.mpr ?_⟩
  · have hdecode := htable.decode w (-65535) (List.getElem?_replicate_of_lt w.isLt)
    exact congrArg Definition.name (Option.some.inj hdecode).symm
  · rw [htable.unknown, List.countP_replicate]
    rfl
  · exact ⟨-1, List.mem_replicate.mpr ⟨by decide, rfl⟩, by decide⟩

end WordAtlas.Table
