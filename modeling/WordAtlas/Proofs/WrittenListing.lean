import Mathlib.Data.List.Forall2
import WordAtlas.Table.Listing

/-!
# What is written about a table

A listing, and what is told about single words, is written as a value of lists and records.  This
file says what such a value holds, in terms of the value alone: which fields a record has and what
stands in each of them.  A run is a list of three numbers (`Run.WrittenAs`), a definition a record
of its position and its eleven values (`Json.Describes`), and a listing a record of five fields
(`Listing.WrittenAs`). Formats and kinds of control flow are written by names, each of which leads
back to what it names.
-/

namespace WordAtlas

/-! ## Records and names -/

/-- A value is a record with exactly the given fields, in some order. -/
def Json.HasFields {ν : Type} (value : Json ν) (names : List String) : Prop :=
  ∃ fields, value = .object fields ∧ (fields.map Prod.fst).Perm names

/-- The formats under their letters. -/
def Format.letters : List (String × Format) :=
  [("A", .a), ("B", .b), ("C", .c), ("D", .d), ("E", .e), ("F", .f), ("Z", .z), ("W", .w)]

/-- The kinds of control flow under their names. -/
def Flow.names : List (String × Flow) :=
  [("NONE", .none), ("CALL", .call), ("JMP", .jmp), ("BRA", .bra), ("INT", .int), ("INTE", .inte),
   ("RET", .ret)]

/-- A text is the letter of a format: it stands for the format in the manual, and it is read back as
the format. -/
structure Format.IsLetter (format : Format) (s : String) : Prop where
  listed : (s, format) ∈ letters
  back : ofLetter? s = some format

/-- A text is the name of a kind of control flow, and it is read back as this kind. -/
structure Flow.IsName (flow : Flow) (s : String) : Prop where
  listed : (s, flow) ∈ names
  back : ofName? s = some flow

/-- The letter of a format is a letter of it. -/
theorem Format.isLetter_letter (format : Format) : format.IsLetter format.letter where
  listed := by cases format <;> decide
  back := ofLetter?_letter format

/-- The name of a kind of control flow is a name of it. -/
theorem Flow.isName_name (flow : Flow) : flow.IsName flow.name where
  listed := by cases flow <;> decide
  back := ofName?_name flow

/-! ## Definitions, runs and listings -/

/-- The fields of a record about a definition. -/
def Record.names : List String :=
  ["index", "name", "encoding", "mask", "format", "extra_words_x", "extra_words_y",
   "display_format", "action", "flow_type", "conditional", "delay_slot"]

/-- A value gives a position and what a definition says, each under its own name. -/
structure Json.Describes (value : Json Int) (index : Nat) (d : Definition) : Prop where
  index : value.field? "index" = some (.number index)
  name : value.field? "name" = some (.string d.name)
  encoding : value.field? "encoding" = some (.number d.encoding.val)
  mask : value.field? "mask" = some (.number d.mask.val)
  format : ∃ s, value.field? "format" = some (.string s) ∧ d.format.IsLetter s
  xCount : value.field? "extra_words_x" = some (.number d.xCount.val)
  yCount : value.field? "extra_words_y" = some (.number d.yCount.val)
  display : value.field? "display_format" = some (.string d.display)
  action : value.field? "action" = some (.string d.action)
  flow : ∃ s, value.field? "flow_type" = some (.string s) ∧ d.flow.IsName s
  conditional : value.field? "conditional" = some (.bool d.conditional)
  delaySlot : value.field? "delay_slot" = some (.bool d.delaySlot)

/-- A record is written as a value: the value describes the record's definition under the record's
index, and it has no other fields. -/
structure Record.WrittenAs (record : Record) (value : Json Int) : Prop where
  names : value.HasFields names
  describes : value.Describes record.index record.definition

/-- A run is written as a value: the list of its first word, its last word and its position. -/
def Run.WrittenAs (run : Run) (value : Json Int) : Prop :=
  value = .array [.number run.first, .number run.last, .number run.index]

/-- A listing is written as a value: a record of five fields, with the records and the runs in their
order. -/
structure Listing.WrittenAs (listing : Listing) (value : Json Int) : Prop where
  names : value.HasFields ["version", "options", "unknown_words", "definitions", "runs"]
  version : value.field? "version" = some (.number listing.version)
  options : value.field? "options" = some (.string listing.options)
  unknown : value.field? "unknown_words" = some (.number listing.unknownWords)
  definitions : ∃ items, value.field? "definitions" = some (.array items) ∧
    List.Forall₂ Record.WrittenAs listing.records items
  runs : ∃ items, value.field? "runs" = some (.array items) ∧
    List.Forall₂ Run.WrittenAs listing.runs items

/-- Fields that begin with those of a record describe the record's definition. -/
theorem Record.describes_append (record : Record) (more : List (String × Json Int)) :
    (Json.object (record.fields ++ more)).Describes record.index record.definition where
  index := rfl
  name := rfl
  encoding := rfl
  mask := rfl
  format := ⟨_, rfl, record.definition.format.isLetter_letter⟩
  xCount := rfl
  yCount := rfl
  display := rfl
  action := rfl
  flow := ⟨_, rfl, record.definition.flow.isName_name⟩
  conditional := rfl
  delaySlot := rfl

/-- A record is written as it should be. -/
theorem Record.writtenAs_toJson (record : Record) : record.WrittenAs record.toJson where
  names := ⟨record.fields, rfl, .refl _⟩
  describes := by
    have h := record.describes_append []
    rw [List.append_nil] at h
    exact h

/-- A listing is written as it should be, with its records and runs one by one. -/
theorem Listing.writtenAs_toJson (listing : Listing) : listing.WrittenAs listing.toJson where
  names := ⟨_, rfl, .refl _⟩
  version := rfl
  options := rfl
  unknown := rfl
  definitions := by
    refine ⟨_, rfl, ?_⟩
    rw [List.forall₂_map_right_iff, List.forall₂_same]
    exact fun record _ => record.writtenAs_toJson
  runs := by
    refine ⟨_, rfl, ?_⟩
    rw [List.forall₂_map_right_iff, List.forall₂_same]
    exact fun _ _ => rfl

end WordAtlas
