import Mathlib.Data.List.Forall2
import WordAtlas.Proofs.Layers
import WordAtlas.Proofs.Rows
import WordAtlas.Table.Batch

/-!
# Batches decode word by word

A batch of numbers is laid out as an array before it is decoded, and whether it is decoded at all is
decided by the kind that the array takes and not by looking at each number.  Still, a list of
numbers is answered exactly when each of them is a word, and then with the position of each.  The
same holds of a list of rows of one length.

The kind of numbers does not depend on their order (`Element.kindOf_integers`): one beyond 64 bits
makes the array hold objects, and of the others those below 2 ^ 63 and those above do not fit
together and become fractions.  Words are all of one kind, so no array of words is refused; in any
other array of integers the range is looked at.  Hence `decodeBatch_of_regular`, which speaks of any
regular batch, and the main statement, `batches_decode_alike`.
-/

namespace WordAtlas

namespace ElementKind

/-- Whatever is joined with an object becomes an object. -/
theorem join_object (kind : ElementKind) : kind.join object = object := by
  cases kind <;> rfl

/-- An object among the elements makes objects of all. -/
theorem foldl_join_of_object {first : ElementKind} {kinds : List ElementKind}
    (h : object ∈ first :: kinds) : kinds.foldl join first = object := by
  induction kinds generalizing first with
  | nil => exact (List.mem_singleton.mp h).symm
  | cons kind rest ih =>
      rw [List.foldl_cons]
      apply ih
      rcases List.mem_cons.mp h with rfl | hlater
      · exact List.mem_cons_self
      · rcases List.mem_cons.mp hlater with rfl | hrest
        · rw [join_object]
          exact List.mem_cons_self
        · exact List.mem_cons_of_mem _ hrest

/-- Integers of one kind stay what they are. -/
theorem foldl_join_of_same {integers first : ElementKind} {kinds : List ElementKind}
    (hintegers : integers.isInteger = true) (h : ∀ kind ∈ first :: kinds, kind = integers) :
    kinds.foldl join first = integers := by
  induction kinds generalizing first with
  | nil => exact h first List.mem_cons_self
  | cons kind rest ih =>
      obtain ⟨hfirst, hrest⟩ := List.forall_mem_cons.mp h
      obtain ⟨hkind, hlater⟩ := List.forall_mem_cons.mp hrest
      have hself : integers.join integers = integers := by cases integers <;> trivial
      rw [List.foldl_cons, hfirst, hkind, hself]
      exact ih (List.forall_mem_cons.mpr ⟨rfl, hlater⟩)

/-- Integers do not change what has become a fraction. -/
theorem foldl_join_float64 {kinds : List ElementKind} (h : ∀ kind ∈ kinds, kind.isInteger = true) :
    kinds.foldl join float64 = float64 := by
  induction kinds with
  | nil => rfl
  | cons kind rest ih =>
      obtain ⟨hkind, hrest⟩ := List.forall_mem_cons.mp h
      have hjoin : float64.join kind = float64 := by cases kind <;> trivial
      rw [List.foldl_cons, hjoin, ih hrest]

/-- Integers of both kinds become fractions. -/
theorem foldl_join_of_mixed {first : ElementKind} {kinds : List ElementKind}
    (h : ∀ kind ∈ first :: kinds, kind.isInteger = true) (hsigned : int64 ∈ first :: kinds)
    (hunsigned : uint64 ∈ first :: kinds) : kinds.foldl join first = float64 := by
  induction kinds generalizing first with
  | nil =>
      rw [List.mem_singleton] at hsigned hunsigned
      cases hsigned.trans hunsigned.symm
  | cons kind rest ih =>
      obtain ⟨hfirst, hrest⟩ := List.forall_mem_cons.mp h
      obtain ⟨hkind, hlater⟩ := List.forall_mem_cons.mp hrest
      rw [List.foldl_cons]
      by_cases hsame : kind = first
      · have hself : first.join first = first := by cases first <;> trivial
        rw [hsame, hself]
        rw [hsame] at hsigned hunsigned
        exact ih (List.forall_mem_cons.mpr ⟨hfirst, hlater⟩) (by simpa using hsigned)
          (by simpa using hunsigned)
      · have hjoin : first.join kind = float64 := by
          cases first <;> cases kind <;> trivial
        rw [hjoin, foldl_join_float64 hlater]

end ElementKind

namespace Element

/-- A number is held in 64 bits, with or without a sign. -/
def IsHeld (z : Int) : Prop :=
  -0x8000000000000000 ≤ z ∧ z < 0x10000000000000000

instance : DecidablePred IsHeld :=
  fun z => inferInstanceAs (Decidable (-0x8000000000000000 ≤ z ∧ z < 0x10000000000000000))

/-- A number that fits with a sign is held with one. -/
theorem kind_of_signed {z : Int} (h : IsHeld z) (hsigned : z < 0x8000000000000000) :
    (integer z).kind = .int64 := by
  rw [kind, if_pos ⟨h.1, hsigned⟩]

/-- A number that is too large for that, but fits without a sign, is held without one. -/
theorem kind_of_unsigned {z : Int} (h : IsHeld z) (hunsigned : 0x8000000000000000 ≤ z) :
    (integer z).kind = .uint64 := by
  have hnot : ¬ (-0x8000000000000000 ≤ z ∧ z < 0x8000000000000000) := by omega
  rw [kind, if_neg hnot, if_pos ⟨by omega, h.2⟩]

/-- A number that is held in 64 bits is held as an integer. -/
theorem isInteger_of_isHeld {z : Int} (h : IsHeld z) : (integer z).kind.isInteger = true := by
  by_cases hsigned : z < 0x8000000000000000
  · rw [kind_of_signed h hsigned]
    rfl
  · rw [kind_of_unsigned h (Int.not_lt.mp hsigned)]
    rfl

/-- Any other number is held as an object. -/
theorem kind_of_not_isHeld {z : Int} (h : ¬ IsHeld z) : (integer z).kind = .object := by
  unfold IsHeld at h
  rw [kind, if_neg (by omega), if_neg (by omega)]

/-- The kind of an array joins the kinds of its elements, beginning with the first. -/
theorem kindOf_eq_foldl {elements : List Element} (hne : elements ≠ []) :
    ∃ first kinds, elements.map kind = first :: kinds ∧
      kindOf elements = kinds.foldl .join first := by
  obtain ⟨element, rest, rfl⟩ := List.exists_cons_of_ne_nil hne
  exact ⟨element.kind, rest.map kind, rfl, by rw [kindOf, List.foldl_map]⟩

/-- The kind of an array of numbers, whatever their order. -/
theorem kindOf_integers {numbers : List Int} (hne : numbers ≠ []) :
    kindOf (numbers.map integer) =
      if ∃ z ∈ numbers, ¬ IsHeld z then .object
      else if ∀ z ∈ numbers, z < 0x8000000000000000 then .int64
      else if ∀ z ∈ numbers, 0x8000000000000000 ≤ z then .uint64
      else .float64 := by
  obtain ⟨first, kinds, hkinds, hkind⟩ := kindOf_eq_foldl (mt List.map_eq_nil_iff.mp hne)
  rw [List.map_map] at hkinds
  have hmem : ∀ z ∈ numbers, (integer z).kind ∈ first :: kinds :=
    fun z hz => hkinds ▸ List.mem_map_of_mem hz
  have hall : ∀ {P : ElementKind → Prop}, (∀ z ∈ numbers, P (integer z).kind) →
      ∀ kind ∈ first :: kinds, P kind :=
    fun h => hkinds ▸ List.forall_mem_map.mpr h
  rw [hkind]
  by_cases hbeyond : ∃ z ∈ numbers, ¬ IsHeld z
  · obtain ⟨z, hz, hnot⟩ := hbeyond
    rw [if_pos ⟨z, hz, hnot⟩]
    exact ElementKind.foldl_join_of_object (kind_of_not_isHeld hnot ▸ hmem z hz)
  rw [if_neg hbeyond]
  have hheld : ∀ z ∈ numbers, IsHeld z := by simpa using hbeyond
  by_cases hsigned : ∀ z ∈ numbers, z < 0x8000000000000000
  · rw [if_pos hsigned]
    exact ElementKind.foldl_join_of_same rfl
      (hall fun z hz => kind_of_signed (hheld z hz) (hsigned z hz))
  rw [if_neg hsigned]
  by_cases hunsigned : ∀ z ∈ numbers, 0x8000000000000000 ≤ z
  · rw [if_pos hunsigned]
    exact ElementKind.foldl_join_of_same rfl
      (hall fun z hz => kind_of_unsigned (hheld z hz) (hunsigned z hz))
  rw [if_neg hunsigned]
  -- Some number is too large for a sign, and some other is held with one.
  simp only [not_forall, Int.not_lt, Int.not_le] at hsigned hunsigned
  obtain ⟨large, hlarge, hlargeBound⟩ := hsigned
  obtain ⟨small, hsmall, hsmallBound⟩ := hunsigned
  exact ElementKind.foldl_join_of_mixed (hall fun z hz => isInteger_of_isHeld (hheld z hz))
    (kind_of_signed (hheld small hsmall) hsmallBound ▸ hmem small hsmall)
    (kind_of_unsigned (hheld large hlarge) hlargeBound ▸ hmem large hlarge)

/-- An array of words holds integers. -/
theorem kindOf_words {numbers : List Int} (hne : numbers ≠ [])
    (hwords : ∀ z ∈ numbers, 0 ≤ z ∧ z < 65536) : kindOf (numbers.map integer) = .int64 := by
  have hheld : ¬ ∃ z ∈ numbers, ¬ IsHeld z := by
    rintro ⟨z, hz, hnot⟩
    have hword := hwords z hz
    exact hnot ⟨by omega, by omega⟩
  have hsigned : ∀ z ∈ numbers, z < 0x8000000000000000 := by
    intro z hz
    have hword := hwords z hz
    omega
  rw [kindOf_integers hne, if_neg hheld, if_pos hsigned]

end Element

namespace Batch

/-- Why numbers that are not all words cannot be decoded: if their array holds integers they are out
of range, and otherwise they are no integers to it. -/
def refusal (numbers : List Int) : Refusal :=
  if ∃ z ∈ numbers, ¬ Element.IsHeld z then .notIntegers .object
  else if (∀ z ∈ numbers, z < 0x8000000000000000) ∨ (∀ z ∈ numbers, 0x8000000000000000 ≤ z) then
    .range
  else .notIntegers .float64

/-- Whether the range or the kind is refused depends on the kind that the numbers have together. -/
theorem refusal_eq {numbers : List Int} (hne : numbers ≠ []) :
    refusal numbers =
      if (Element.kindOf (numbers.map .integer)).isInteger then .range
      else .notIntegers (Element.kindOf (numbers.map .integer)) := by
  rw [refusal, Element.kindOf_integers hne]
  by_cases hbeyond : ∃ z ∈ numbers, ¬ Element.IsHeld z
  · simp only [if_pos hbeyond]
    rfl
  simp only [if_neg hbeyond]
  by_cases hsigned : ∀ z ∈ numbers, z < 0x8000000000000000
  · rw [if_pos (.inl hsigned), if_pos hsigned]
    rfl
  rw [if_neg hsigned]
  by_cases hunsigned : ∀ z ∈ numbers, 0x8000000000000000 ≤ z
  · rw [if_pos (.inr hunsigned), if_pos hunsigned]
    rfl
  · rw [if_neg (not_or.mpr ⟨hsigned, hunsigned⟩), if_neg hunsigned]
    rfl

/-- An integer is a word exactly if it is between 0 and 65535. -/
theorem isWord_integer {z : Int} : isWord (.integer z) = true ↔ 0 ≤ z ∧ z < 65536 := by
  rw [isWord, Bool.and_eq_true, decide_eq_true_iff, decide_eq_true_iff, Element.toInt]

/-- Integers are all words exactly if they are all between 0 and 65535. -/
theorem all_isWord_integers {numbers : List Int} :
    (numbers.map Element.integer).all isWord = true ↔ ∀ z ∈ numbers, 0 ≤ z ∧ z < 65536 := by
  rw [List.all_eq_true, List.forall_mem_map]
  exact forall₂_congr fun _ _ => isWord_integer

end Batch

namespace Table

variable (table : Table)

/-- The numbers that decode are the words. -/
theorem exists_decodeNumber_iff (z : Int) :
    (∃ d, table.decodeNumber z = .ok d) ↔ 0 ≤ z ∧ z < 65536 := by
  constructor
  · rintro ⟨d, hd⟩
    by_contra hnot
    rw [decodeNumber, Word.ofInt_eq_error_iff.mpr ⟨rfl, hnot⟩] at hd
    cases hd
  · rintro ⟨hlow, hhigh⟩
    obtain ⟨w, rfl⟩ := Int.eq_ofNat_of_zero_le hlow
    exact ⟨_, table.decodeNumber_val ⟨w, by omega⟩⟩

/-- Numbers in an array of any shape are decoded when all of them are words. -/
theorem decodeBatch_of_regular {batch : Batch} {shape : List Nat} {numbers : List Int}
    (hshape : batch.shape Batch.levelLimit = (shape, .regular))
    (hleaves : batch.leaves = numbers.map .integer) :
    table.decodeBatch batch =
      if ∀ z ∈ numbers, 0 ≤ z ∧ z < 65536 then .ok (batch.map (Batch.position table))
      else .error (Batch.refusal numbers) := by
  unfold decodeBatch
  rw [hshape]
  simp only [hleaves]
  by_cases hempty : numbers = []
  · subst hempty
    have hnone : ∀ element ∈ batch.leaves, 0 = Batch.position table element := by
      rw [hleaves]
      exact fun element h => absurd h List.not_mem_nil
    rw [Nested.map_congr hnone]
    rfl
  have hsome : ¬ (numbers.map Element.integer).isEmpty = true := by
    rw [List.isEmpty_iff, List.map_eq_nil_iff]
    exact hempty
  rw [if_neg hsome]
  by_cases hwords : ∀ z ∈ numbers, 0 ≤ z ∧ z < 65536
  · rw [if_pos hwords, Element.kindOf_words hempty hwords, Batch.all_isWord_integers.mpr hwords]
    rfl
  · have hnotAll : (numbers.map Element.integer).all Batch.isWord = false :=
      Bool.eq_false_iff.mpr (mt Batch.all_isWord_integers.mp hwords)
    rw [if_neg hwords, Batch.refusal_eq hempty, hnotAll]
    cases (Element.kindOf (numbers.map Element.integer)).isInteger <;> rfl

-- No kind of integers holds both a negative number and one that is too large for a sign.
example : table.decodeBatch (.ofList [.integer (-1), .integer 0x8000000000000000]) =
    .error (.notIntegers .float64) := rfl

/-- A position is that of the definition that a number decodes to. -/
def Locates (z : Int) (position : Nat) : Prop :=
  ∃ w : Word, z = w.val ∧ position = table.index w ∧ table.decodeNumber z = .ok (table.decode w) ∧
    table.definitionAt? position = some (table.decode w)

/-- A batch that holds some numbers is decoded as the numbers one by one are, and its answer is as
described. -/
structure DecodesAlike (batch : Batch) (numbers : List Int) (Described : Nested Nat → Prop) :
    Prop where
  /-- There is an answer exactly when every number decodes. -/
  answered_iff : (∃ answer, table.decodeBatch batch = .ok answer) ↔
    ∀ z ∈ numbers, ∃ d, table.decodeNumber z = .ok d
  described : ∀ answer, table.decodeBatch batch = .ok answer → Described answer
  /-- One number that does not decode is enough for a refusal. -/
  refused : ∀ z ∈ numbers, ∀ e, table.decodeNumber z = .error e →
    table.decodeBatch batch = .error (Batch.refusal numbers)

variable {table}

/-- The position that is located for a word is its index. -/
theorem Locates.eq_index {w : Word} {position : Nat} (h : table.Locates w.val position) :
    position = table.index w := by
  obtain ⟨v, hv, rfl, -⟩ := h
  rw [Fin.ext (Int.ofNat_inj.mp hv)]

/-- The position that a batch finds for a word is located for it. -/
theorem locates_position {z : Int} (hword : 0 ≤ z ∧ z < 65536) :
    table.Locates z (Batch.position table (.integer z)) := by
  obtain ⟨n, rfl⟩ := Int.eq_ofNat_of_zero_le hword.1
  have hn : n < 65536 := by omega
  have hof : Word.ofInt (n : Int) = .ok ⟨n, hn⟩ := Word.ofInt_eq_ok_iff.mpr rfl
  have hposition : Batch.position table (.integer n) = table.index ⟨n, hn⟩ := by
    rw [Batch.position, Element.toInt, hof]
  exact ⟨⟨n, hn⟩, rfl, hposition, table.decodeNumber_val ⟨n, hn⟩,
    by rw [hposition, definitionAt?_index]⟩

/-- A regular batch decodes as its numbers do; its answer need only be described for words. -/
theorem decodesAlike_of_regular {batch : Batch} {shape : List Nat} {numbers : List Int}
    {Described : Nested Nat → Prop}
    (hshape : batch.shape Batch.levelLimit = (shape, .regular))
    (hleaves : batch.leaves = numbers.map .integer)
    (hdescribed : (∀ z ∈ numbers, 0 ≤ z ∧ z < 65536) →
      Described (batch.map (Batch.position table))) :
    table.DecodesAlike batch numbers Described := by
  have hdecode := table.decodeBatch_of_regular hshape hleaves
  refine ⟨?_, ?_, ?_⟩
  · rw [hdecode]
    simp only [exists_decodeNumber_iff]
    split
    · rename_i hwords
      exact iff_of_true ⟨_, rfl⟩ hwords
    · rename_i hwords
      exact iff_of_false (fun ⟨_, h⟩ => by cases h) hwords
  · intro answer hanswer
    rw [hdecode] at hanswer
    split at hanswer
    · rename_i hwords
      cases hanswer
      exact hdescribed hwords
    · cases hanswer
  · intro z hz e he
    rw [hdecode, if_neg]
    intro hwords
    obtain ⟨d, hd⟩ := (table.exists_decodeNumber_iff z).mpr (hwords z hz)
    rw [he] at hd
    cases hd

/-- The positions that a batch finds for words are located for them, one by one. -/
theorem forall₂_locates {numbers : List Int} (hwords : ∀ z ∈ numbers, 0 ≤ z ∧ z < 65536) :
    List.Forall₂ table.Locates numbers
      (numbers.map fun z => Batch.position table (.integer z)) := by
  rw [List.forall₂_map_right_iff, List.forall₂_same]
  exact fun z hz => locates_position (hwords z hz)

/-- **Batches decode as their numbers do.**  A list of integers of any size, or rows of them of one
length, are decoded exactly when every integer decodes by itself; the answer has the layout of the
batch and holds the position of what each integer decodes to.  Otherwise the batch is refused, for
the range, or because its array cannot hold integers. -/
theorem batches_decode_alike (table : Table) :
    (∀ numbers : List Int,
      table.DecodesAlike (.ofList (numbers.map .integer)) numbers fun answer =>
        ∃ positions, answer = .ofList positions ∧
          List.Forall₂ table.Locates numbers positions) ∧
    ∀ (width : Nat) (rows : List (List Int)), (∀ row ∈ rows, row.length = width) →
      table.DecodesAlike (.ofRows (rows.map (List.map .integer))) rows.flatten fun answer =>
        ∃ positions, answer = .ofRows positions ∧
          List.Forall₂ (List.Forall₂ table.Locates) rows positions := by
  constructor
  · intro numbers
    refine decodesAlike_of_regular (Nested.shape_ofList 63 _) (Nested.leaves_ofList _) ?_
    intro hwords
    refine ⟨numbers.map fun z => Batch.position table (.integer z), ?_, forall₂_locates hwords⟩
    rw [Nested.map_ofList, List.map_map]
    rfl
  · intro width rows hwidth
    have hlengths : ∀ row ∈ rows.map (List.map Element.integer), row.length = width := by
      rw [List.forall_mem_map]
      exact fun row hrow => (List.length_map _).trans (hwidth row hrow)
    have hleaves : (Nested.ofRows (rows.map (List.map Element.integer))).leaves =
        rows.flatten.map .integer := by
      rw [Nested.leaves_ofRows, List.map_flatten]
    refine decodesAlike_of_regular (Nested.shape_ofRows 62 hlengths) hleaves ?_
    intro hwords
    refine ⟨rows.map (List.map fun z => Batch.position table (.integer z)), ?_, ?_⟩
    · rw [Nested.map_ofRows, List.map_map]
      exact congrArg Nested.ofRows (List.map_congr_left fun row _ => List.map_map)
    · rw [List.forall₂_map_right_iff, List.forall₂_same]
      intro row hrow
      exact forall₂_locates fun z hz => hwords z (List.mem_flatten.mpr ⟨row, hrow, hz⟩)

/-- Two rows of an instruction and an unknown word, in the two orders. -/
def pairRows : List (List Int) :=
  [[0x1234, 0x1400], [0x1400, 0x1234]]

/-- The rows are answered by rows of positions. -/
theorem decodeBatch_pairRows :
    (∀ row ∈ pairRows, row.length = 2) ∧
      ∃ table, build pairCatalogs .empty = .ok table ∧
        table.decodeBatch (.ofRows (pairRows.map (List.map .integer))) =
          .ok (.ofRows [[1, 0], [0, 1]]) := by
  have hrows : ∀ row ∈ pairRows, row.length = 2 := by decide
  obtain ⟨table, hbuild, -, hlast⟩ :=
    exists_table validate_pairCatalogs (length_applied_pairCatalogs .empty)
  have hclaimed : table.index 0x1234 = 1 := ((hlast _).unique lastClaim_pairCatalogs).1
  have hunclaimed : IsLastClaim (pairCatalogs.applied .empty) 0x1400 0
      (Catalog.entry 0x0000 0x0000 .w 0 0 "UNK" "" "") :=
    ⟨rfl, by decide, by decide⟩
  have hunknown : table.index 0x1400 = 0 := ((hlast _).unique hunclaimed).1
  obtain ⟨hanswered, hdescribed, -⟩ := (batches_decode_alike table).2 2 pairRows hrows
  have hwords : ∀ z ∈ pairRows.flatten, 0 ≤ z ∧ z < 65536 := by decide
  obtain ⟨answer, hanswer⟩ :=
    hanswered.mpr fun z hz => (table.exists_decodeNumber_iff z).mpr (hwords z hz)
  obtain ⟨positions, rfl, hlocated⟩ := hdescribed answer hanswer
  rcases hlocated with _ | ⟨_ | ⟨ha, _ | ⟨hb, _ | _⟩⟩, _ | ⟨_ | ⟨hc, _ | ⟨hd, _ | _⟩⟩, _ | _⟩⟩
  have hload : ∀ position, table.Locates 0x1234 position → position = 1 :=
    fun _ h => (Locates.eq_index (w := 0x1234) h).trans hclaimed
  have hother : ∀ position, table.Locates 0x1400 position → position = 0 :=
    fun _ h => (Locates.eq_index (w := 0x1400) h).trans hunknown
  rw [hload _ ha, hother _ hb, hother _ hc, hload _ hd] at hanswer
  exact ⟨hrows, table, hbuild, hanswer⟩

end Table

end WordAtlas
