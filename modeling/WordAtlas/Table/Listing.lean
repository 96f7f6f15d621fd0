import WordAtlas.Json
import WordAtlas.Table.Runs

/-!
# Listing a table

A listing tells all that a table does: the runs of its words and a record of every definition that
some word decodes to.  Definitions that were painted over by later ones own no word any more and are
left out.  Single words are looked up likewise: an entry holds the record of the word's definition
together with the word and its operand fields.
-/

namespace WordAtlas

/-- A definition together with its position in the table. -/
structure Record where
  index : Nat
  definition : Definition
deriving DecidableEq, Repr

/-- All that a table does. -/
structure Listing where
  version : Nat
  options : String
  unknownWords : Nat
  records : List Record
  runs : List Run
deriving DecidableEq, Repr

/-- What is told about a single word. -/
structure Entry where
  record : Record
  word : Word
  fields : Operands
deriving DecidableEq, Repr

namespace Record

/-- The fields of a record as it is written. -/
def fields (record : Record) : List (String × Json Int) :=
  let d := record.definition
  [("index", .number record.index),
   ("name", .string d.name),
   ("encoding", .number d.encoding.val),
   ("mask", .number d.mask.val),
   ("format", .string d.format.letter),
   ("extra_words_x", .number d.xCount.val),
   ("extra_words_y", .number d.yCount.val),
   ("display_format", .string d.display),
   ("action", .string d.action),
   ("flow_type", .string d.flow.name),
   ("conditional", .bool d.conditional),
   ("delay_slot", .bool d.delaySlot)]

/-- A record as it is written. -/
def toJson (record : Record) : Json Int :=
  .object record.fields

end Record

namespace Operands

/-- The operand fields under their names, in order, those that the format does not have as
`none`. -/
def named (operands : Operands) : List (String × Option Int) :=
  [("ri", operands.ri.map Int.ofNat), ("rj", operands.rj.map Int.ofNat),
   ("x", operands.x.map Int.ofNat), ("offset", operands.offset)]

/-- The operand fields that the format has, as they are written. -/
def toJson (operands : Operands) : Json Int :=
  .object (operands.named.filterMap fun (name, value) => value.map fun z => (name, .number z))

end Operands

namespace Run

/-- A run as it is written. -/
def toJson (run : Run) : Json Int :=
  .array [.number run.first, .number run.last, .number run.index]

end Run

namespace Listing

/-- A listing as it is written. -/
def toJson (listing : Listing) : Json Int :=
  .object
    [("version", .number listing.version),
     ("options", .string listing.options),
     ("unknown_words", .number listing.unknownWords),
     ("definitions", .array (listing.records.map Record.toJson)),
     ("runs", .array (listing.runs.map Run.toJson))]

end Listing

namespace Entry

/-- An entry as it is written. -/
def toJson (entry : Entry) : Json Int :=
  .object (entry.record.fields ++
    [("word", .number entry.word.val), ("fields", entry.fields.toJson)])

end Entry

namespace Table

/-- The record of the definition at a position. -/
def record? (table : Table) (position : Nat) : Option Record :=
  (table.definitionAt? position).map fun d => ⟨position, d⟩

/-- The positions that some run has, in increasing order. -/
def reachable (table : Table) : List Nat :=
  let runs := table.runs
  (List.range table.definitions.size).filter fun position =>
    runs.any fun run => run.index == position

/-- The listing of a table. -/
def listing (table : Table) : Listing where
  version := 1
  options := table.options.text
  unknownWords := table.unknownCount
  records := table.reachable.filterMap table.record?
  runs := table.runs

/-- What is told about a word. -/
def entry (table : Table) (w : Word) : Entry :=
  let d := table.decode w
  ⟨⟨table.index w, d⟩, w, d.format.split w⟩

/-- What is told about some numbers, or the first of them that is no word. -/
def lookup (table : Table) : List Int → Except Word.OutOfRange (List Entry)
  | [] => .ok []
  | z :: rest => do
      let w ← Word.ofInt z
      let entries ← table.lookup rest
      return table.entry w :: entries

/-- Looking up words always succeeds and tells about each in turn. -/
theorem lookup_words (table : Table) (words : List Word) :
    table.lookup (words.map fun w => (w.val : Int)) = .ok (words.map table.entry) := by
  induction words with
  | nil => rfl
  | cons w rest ih =>
      rw [List.map_cons, lookup, Word.ofInt_val, ih]
      rfl

end Table

end WordAtlas
