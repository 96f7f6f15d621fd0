/-!
# Layouts of packed integers

A layout says how some neighbouring integers lie in memory: the width and sign of each, and the
order of their bytes.  A layout that names no byte order is spaced like a record of the machine,
where every item starts at a multiple of its width; one that names an order is packed without gaps.
Bytes without a named order are big-endian all the same.
-/

namespace WordAtlas

/-- The order of the bytes of an integer. -/
inductive ByteOrder
  | big
  | little
deriving DecidableEq, Repr

/-- The width of a packed integer. -/
inductive Width
  | one
  | two
  | four
  | eight
deriving DecidableEq, Repr

/-- The number of bytes of a width. -/
def Width.bytes : Width → Nat
  | one => 1
  | two => 2
  | four => 4
  | eight => 8

/-- A packed integer. -/
structure PackedInteger where
  width : Width
  signed : Bool
deriving DecidableEq, Repr

/-- One or more packed integers, one behind the other. -/
structure Layout where
  order : Option ByteOrder
  head : PackedInteger
  rest : List PackedInteger
deriving DecidableEq, Repr

/-- The number that bytes denote, the most significant one first. -/
def bigEndian (bytes : List UInt8) : Nat :=
  bytes.foldl (fun n byte => 256 * n + byte.toNat) 0

namespace PackedInteger

/-- The integer of the given letter; capitals have no sign. -/
def ofLetter? : Char → Option PackedInteger
  | 'B' => some ⟨.one, false⟩
  | 'b' => some ⟨.one, true⟩
  | 'H' => some ⟨.two, false⟩
  | 'h' => some ⟨.two, true⟩
  | 'I' => some ⟨.four, false⟩
  | 'i' => some ⟨.four, true⟩
  | 'Q' => some ⟨.eight, false⟩
  | 'q' => some ⟨.eight, true⟩
  | _ => none

/-- The number of bytes of an integer. -/
def size (item : PackedInteger) : Nat :=
  item.width.bytes

/-- The integer that its bytes denote: without sign the number itself, with sign that number less
`256 ^ size` when its top bit is set. -/
def value (item : PackedInteger) (order : ByteOrder) (bytes : List UInt8) : Int :=
  let n := bigEndian (match order with | .big => bytes | .little => bytes.reverse)
  let range := 1 <<< (8 * item.size)
  if item.signed ∧ range ≤ 2 * n then (n : Int) - range else n

end PackedInteger

namespace Layout

/-- A sixteen-bit word. -/
def word : Layout :=
  ⟨none, ⟨.two, false⟩, []⟩

/-- The items of a layout. -/
def items (layout : Layout) : List PackedInteger :=
  layout.head :: layout.rest

/-- The number of bytes that the items take without gaps. -/
def packedSize (layout : Layout) : Nat :=
  layout.items.foldl (fun size item => size + item.size) 0

/-- The end of an item that starts at the first multiple of its width not before `offset`. -/
def alignedEnd (offset : Nat) (item : PackedInteger) : Nat :=
  (offset + item.size - 1) / item.size * item.size + item.size

/-- The number of bytes that a layout takes, gaps included. -/
def span (layout : Layout) : Nat :=
  match layout.order with
  | some _ => layout.packedSize
  | none => layout.items.foldl alignedEnd 0

/-- The order of the bytes within an item. -/
def byteOrder (layout : Layout) : ByteOrder :=
  layout.order.getD .big

/-- The layout whose items have the given letters. -/
def ofLetters? (order : Option ByteOrder) (letters : List Char) : Option Layout := do
  match ← letters.mapM PackedInteger.ofLetter? with
  | [] => none
  | head :: rest => some ⟨order, head, rest⟩

/-- The layout that a text describes: a sign for the byte order, if it is named, and a letter for
each item. -/
def ofText? (s : String) : Option Layout :=
  match s.toList with
  | '>' :: letters => ofLetters? (some .big) letters
  | '<' :: letters => ofLetters? (some .little) letters
  | letters => ofLetters? none letters

end Layout

end WordAtlas
