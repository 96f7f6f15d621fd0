import WordAtlas.Nested
import WordAtlas.Table

/-!
# Decoding many words at once

A batch is a nested list of elements of any kind.  It is first laid out as an array, which has one
kind for all of its elements: the narrowest kind that can hold each of them.  Only arrays of
integers can be decoded, and only if all of them are words; an array without elements is decoded
whatever its kind.  The answer has the layout of the batch and holds positions of definitions.

The kinds of numbers are those of machine arithmetic: truth values, signed and unsigned integers of
64 bits, and floating point; an integer beyond those can only be held as an arbitrary object.  A
number next to a text is held as its text, which takes the width of the widest number of its kind.
-/

namespace WordAtlas

/-- An element of a batch. -/
inductive Element
  | bool (b : Bool)
  | integer (z : Int)
  | fraction
  | text (length : Nat)
  | other
deriving DecidableEq, Repr

/-- The kind of the elements of an array. -/
inductive ElementKind
  | bool
  | int64
  | uint64
  | float64
  | text (width : Nat)
  | object
deriving DecidableEq, Repr

namespace ElementKind

/-- The name of a kind. -/
def name : ElementKind → String
  | bool => "bool"
  | int64 => "int64"
  | uint64 => "uint64"
  | float64 => "float64"
  | text width => s!"<U{width}"
  | object => "object"

/-- The number of characters that any element of a kind can be written with. -/
def textWidth : ElementKind → Nat
  | bool => 5
  | int64 => 21
  | uint64 => 20
  | float64 => 32
  | text width => width
  | object => 0

/-- The narrowest kind that holds the elements of both kinds. -/
def join : ElementKind → ElementKind → ElementKind
  | object, _ => object
  | _, object => object
  | text width, kind => text (max width kind.textWidth)
  | kind, text width => text (max kind.textWidth width)
  | bool, kind => kind
  | kind, bool => kind
  | int64, int64 => int64
  | uint64, uint64 => uint64
  | _, _ => float64

/-- Whether the elements are integers. -/
def isInteger : ElementKind → Bool
  | int64 => true
  | uint64 => true
  | _ => false

end ElementKind

namespace Element

/-- The kind of an element by itself. -/
def kind : Element → ElementKind
  | bool _ => .bool
  | integer z =>
      if -0x8000000000000000 ≤ z ∧ z < 0x8000000000000000 then .int64
      else if 0 ≤ z ∧ z < 0x10000000000000000 then .uint64
      else .object
  | fraction => .float64
  | text length => .text (max length 1)
  | other => .object

/-- The integer that an element counts as in an array of integers. -/
def toInt : Element → Int
  | bool b => if b then 1 else 0
  | integer z => z
  | _ => 0

/-- The kind of an array of the given elements. -/
def kindOf : List Element → ElementKind
  | [] => .float64
  | first :: rest => rest.foldl (fun kind element => kind.join element.kind) first.kind

end Element

/-- A nested list of elements to be decoded. -/
abbrev Batch := Nested Element

namespace Batch

/-- The number of levels that an array can have. -/
def levelLimit : Nat := 64

/-- Why a batch cannot be decoded. -/
inductive Refusal
  /-- The parts below the levels of this shape differ in length. -/
  | ragged (shape : List Nat)
  /-- There are more levels than an array can have. -/
  | tooDeep
  /-- The elements are not integers. -/
  | notIntegers (kind : ElementKind)
  /-- Some integer is no word. -/
  | range
deriving DecidableEq, Repr

/-- The shape of an array, in parentheses; a shape of one level has a comma after its number. -/
def showShape : List Nat → String
  | [size] => s!"({size},)"
  | sizes => "(" ++ ", ".intercalate (sizes.map toString) ++ ")"

/-- The message about a batch that cannot be decoded. -/
def Refusal.message : Refusal → String
  | .ragged shape =>
      "setting an array element with a sequence. The requested array has an inhomogeneous shape " ++
        s!"after {shape.length} dimensions. The detected shape was " ++ showShape shape ++
        " + inhomogeneous part."
  | .tooDeep =>
      "setting an array element with a sequence. The requested array would exceed the maximum " ++
        s!"number of dimension of {levelLimit}."
  | .notIntegers kind => "Instruction words must be integers, got " ++ kind.name
  | .range => "Instruction words must be within 0..0xFFFF"

/-- The position of the definition of an element that is a word. -/
def position (table : Table) (element : Element) : Nat :=
  match Word.ofInt element.toInt with
  | .ok w => table.index w
  | .error _ => 0

/-- Whether an element counts as a word. -/
def isWord (element : Element) : Bool :=
  0 ≤ element.toInt && element.toInt < 65536

end Batch

/-- The positions of the definitions of all elements of a batch, laid out as the batch is. -/
def Table.decodeBatch (table : Table) (batch : Batch) : Except Batch.Refusal (Nested Nat) :=
  match batch.shape Batch.levelLimit with
  | (shape, .ragged) => .error (.ragged shape)
  | (_, .tooDeep) => .error .tooDeep
  | (_, .regular) =>
      let elements := batch.leaves
      let kind := Element.kindOf elements
      if elements.isEmpty then .ok (batch.map fun _ => 0)
      else if !kind.isInteger then .error (.notIntegers kind)
      else if !elements.all Batch.isWord then .error .range
      else .ok (batch.map (Batch.position table))

end WordAtlas
