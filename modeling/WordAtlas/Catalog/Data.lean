import WordAtlas.Catalog.Shipped

/-!
# Definitions for literal data

A disassembler also has to show data between the instructions.  Each kind of literal data has a
definition of its own, which is looked up by kind rather than by word.
-/

namespace WordAtlas

/-- The kinds of literal data. -/
inductive DataKind
  | word
  | long
  | longNumber
  | vector
  | rational
deriving DecidableEq, Repr

namespace DataKind

/-- All kinds of literal data; the place in this list is the number of the kind. -/
def all : List DataKind :=
  [word, long, longNumber, vector, rational]

/-- The name of a kind of literal data. -/
def name : DataKind → String
  | word => "WORD"
  | long => "LONG"
  | longNumber => "LONG_NUM"
  | vector => "VECTOR"
  | rational => "RATIONAL"

/-- The number of a kind of literal data. -/
def number : DataKind → Nat
  | word => 0
  | long => 1
  | longNumber => 2
  | vector => 3
  | rational => 4

/-- The kind of literal data with the given number. -/
def ofNumber? (z : Int) : Option DataKind :=
  all.find? fun kind => (kind.number : Int) == z

/-- How data of a kind is shown. -/
def definition : DataKind → Definition
  | word => Catalog.entry 0x0000 0x0000 .w 0 0 "DW" "u;a" ""
  | long => Catalog.entry 0x0000 0x0000 .w 1 0 "DL" "u;a" ""
  | longNumber => Catalog.entry 0x0000 0x0000 .w 1 0 "DL" "u;a" ""
  | vector => Catalog.entry 0x0000 0x0000 .w 1 0 "DL" "u;T #v" ""
  | rational => Catalog.entry 0x0000 0x0000 .w 1 0 "DR" "q;f" ""

/-- The definitions for literal data, in the order of their kinds. -/
def catalog : Catalog :=
  all.map definition

/-- The numbers tell the kinds apart. -/
theorem ofNumber?_number (kind : DataKind) : ofNumber? kind.number = some kind := by
  cases kind <;> decide

end DataKind

end WordAtlas
