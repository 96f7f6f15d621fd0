import WordAtlas.Definition
import WordAtlas.Overlay

/-!
# Decode tables

A decode table is dense: it has a slot for every instruction word, and a slot holds the position of
a definition in the table's list of definitions.  That every slot holds a position of the list is
part of the type, so decoding a word cannot fail; only a number that is no word can be refused.

Position 0 belongs to the catch-all, and a word whose slot holds 0 is *unknown*.  Definitions are
told apart by position, not by value.
-/

namespace WordAtlas

/-- A dense map from the instruction words to definitions. -/
structure Table where
  options : OverlaySet
  definitions : Array Definition
  slots : Vector Nat 65536
  slots_lt : ∀ w : Word, slots.get w < definitions.size

namespace Table

/-- The position of the definition of a word. -/
def index (table : Table) (w : Word) : Nat :=
  table.slots.get w

/-- The definition at a position. -/
def definitionAt? (table : Table) (position : Nat) : Option Definition :=
  table.definitions[position]?

/-- The definition of a word. -/
def decode (table : Table) (w : Word) : Definition :=
  have := table.slots_lt w
  table.definitions[table.slots.get w]

/-- The definition of a number, which must be a word. -/
def decodeNumber (table : Table) (z : Int) : Except Word.OutOfRange Definition :=
  (Word.ofInt z).map table.decode

theorem size_definitions_pos (table : Table) : 0 < table.definitions.size :=
  Nat.lt_of_le_of_lt (Nat.zero_le _) (table.slots_lt 0)

/-- The definition of the words that no instruction claims. -/
def catchAll (table : Table) : Definition :=
  have := table.size_definitions_pos
  table.definitions[0]

/-- Whether no instruction claims a word. -/
def isUnknown (table : Table) (w : Word) : Bool :=
  table.index w == 0

/-- The number of words that no instruction claims. -/
def unknownCount (table : Table) : Nat :=
  table.slots.toList.count 0

/-- Whether two tables decode every word alike, definitions compared by value. -/
def decodesLike (table other : Table) : Bool :=
  (List.finRange 65536).all fun w => table.decode w == other.decode w

/-- Whether two tables hold the same positions. -/
def sameSlots (table other : Table) : Bool :=
  table.slots == other.slots

/-- How a report refers to a table. -/
def describe (table : Table) : String :=
  "DecodeTable(options=" ++ table.options.text ++ ")"

/-- What is wrong with slots that were given directly. -/
inductive Misfit
  /-- There is not one slot for every word. -/
  | slotCount
  /-- A slot holds no position of a definition. -/
  | position
deriving DecidableEq, Repr

/-- The message about slots that were given directly. -/
def Misfit.message : Misfit → String
  | .slotCount => "Decode table must have 65536 slots"
  | .position => "tuple index out of range"

/-- The table with the given slots.  A slot keeps the low sixteen bits of its number, and what is
left has to be the position of a definition. -/
def ofSlots (options : OverlaySet) (definitions : Array Definition) (numbers : List Int) :
    Except Misfit Table :=
  if hcount : numbers.length = 65536 then
    let slots : Vector Nat 65536 :=
      ⟨(numbers.map fun z => (z % 65536).toNat).toArray, by simp [hcount]⟩
    if hpositions : slots.all (· < definitions.size) = true then
      .ok {
        options, definitions, slots
        slots_lt := fun w => by
          have h := Vector.all_eq_true.mp hpositions w.val w.isLt
          exact of_decide_eq_true h }
    else .error .position
  else .error .slotCount

/-- What a word decodes to stands at its position. -/
theorem definitionAt?_index (table : Table) (w : Word) :
    table.definitionAt? (table.index w) = some (table.decode w) := by
  have := table.slots_lt w
  simp [definitionAt?, index, decode, this]

/-- Words of one position have one definition. -/
theorem decode_congr {table : Table} {v w : Word} (h : table.index v = table.index w) :
    table.decode v = table.decode w := by
  have hv := definitionAt?_index table v
  rw [h, definitionAt?_index] at hv
  exact (Option.some.inj hv).symm

/-- Numbers that are words decode like the words. -/
@[simp] theorem decodeNumber_val (table : Table) (w : Word) :
    table.decodeNumber (w.val : Int) = .ok (table.decode w) := by
  unfold decodeNumber
  rw [Word.ofInt_val]
  rfl

theorem toList_eq_map_get {α : Type} {n : Nat} (values : Vector α n) :
    values.toList = (List.finRange n).map values.get := by
  apply List.ext_getElem
  · simp
  · intro place _ hplace
    simp [Vector.get]

/-- The number of unknown words counts the words that are unknown. -/
theorem unknownCount_eq_countP (table : Table) :
    table.unknownCount = (List.finRange 65536).countP table.isUnknown := by
  rw [unknownCount, toList_eq_map_get, List.count_eq_countP, List.countP_map]
  rfl

/-- Two tables decode alike when every word decodes to equal definitions. -/
theorem decodesLike_iff {table other : Table} :
    table.decodesLike other = true ↔ ∀ w, table.decode w = other.decode w := by
  simp [decodesLike]

end Table

end WordAtlas
