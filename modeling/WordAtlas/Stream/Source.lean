import WordAtlas.Bits
import WordAtlas.Stream.Layout
import WordAtlas.Stream.Reading

/-!
# Sources of bytes

Bytes come from a buffer or from a memory.  A buffer holds them all, and its position counts from
its start; its address is that position moved by a base.  A memory is asked for one address after
the other, and its position is an address of 32 bits; what it answers may be no byte at all.

A buffer can be read at a negative position, which then counts from the end of the data, provided
that the bytes wanted lie entirely on that side of the start.
-/

namespace WordAtlas

/-- A source of bytes. -/
inductive Source
  /-- All of the bytes, the first one at the address `base`. -/
  | buffer (bytes : List UInt8) (base : Int)
  /-- A memory that is asked for the contents of addresses. -/
  | memory (cells : Int → Option Int)

namespace Source

/-- The number of addresses of a memory. -/
def addressSpace : Int := 0x100000000

/-- The address of a position. -/
def address : Source → Int → Int
  | buffer _ base, pos => base + pos
  | memory _, pos => pos

/-- Some bytes of a buffer, from a position on that may count from its end. -/
def slice (bytes : List UInt8) (pos : Int) (size : Nat) : Except StreamError (List UInt8) :=
  if pos < 0 then
    if 0 < pos + size then .error (.acrossStart size pos)
    else if pos + bytes.length < 0 then .error (.beforeStart pos bytes.length)
    else .ok ((bytes.drop (pos + bytes.length).toNat).take size)
  else .ok ((bytes.drop pos.toNat).take size)

/-- Some bytes of a memory, from an address on, and the addresses asked for.  The first address
with nothing, or with no byte, is the last one asked for. -/
def cellBytes (cells : Int → Option Int) (start : Int) :
    Nat → Except StreamError (List UInt8) × List Int
  | 0 => (.ok [], [])
  | count + 1 =>
      match cells start with
      | none => (.error .unmapped, [start])
      | some cell =>
          if 0 ≤ cell ∧ cell < 256 then
            let (bytes, asked) := cellBytes cells (start + 1) count
            (bytes.map (UInt8.ofNat cell.toNat :: ·), start :: asked)
          else (.error .notByte, [start])

/-- The bytes of a layout at a position, gaps included, and the addresses asked for. -/
def bytesAt (source : Source) (layout : Layout) (pos : Int) :
    Except StreamError (List UInt8) × List Int :=
  match source with
  | buffer bytes _ =>
      if (bytes.length : Int) - pos < layout.span then (.error .tooShort, [])
      else (slice bytes pos layout.packedSize, [])
  | memory cells =>
      if addressSpace < pos + layout.span then (.error .tooShort, [])
      else cellBytes cells pos layout.span

/-- Reads a layout and moves behind it.  Only one item can be given back; a layout of several is
read, and then it is an error. -/
def unpack (source : Source) (layout : Layout) : Reading Int :=
  fun pos =>
    match source.bytesAt layout pos with
    | (.error e, asked) => ⟨.error e, pos, asked⟩
    | (.ok bytes, asked) =>
        if layout.rest.isEmpty then
          ⟨.ok (layout.head.value layout.byteOrder bytes), pos + layout.span, asked⟩
        else ⟨.error .severalItems, pos + layout.span, asked⟩

/-- Reads a word. -/
def readWord (source : Source) : Reading Int :=
  source.unpack .word

/-- The word at an address of a memory, made of what is there even if it is no byte. -/
def peekCells (cells : Int → Option Int) (start : Int) : Except StreamError Int × List Int :=
  match cells start with
  | none => (.error .unmapped, [start])
  | some high =>
      match cells (start + 1) with
      | none => (.error .unmapped, [start, start + 1])
      | some low => (.ok (Bits.either (high * 256) low), [start, start + 1])

/-- The word that lies `offset` words after the position, which stays where it is. -/
def peek (source : Source) (offset : Int) : Reading Int :=
  fun pos =>
    let start := pos + offset * 2
    match source with
    | buffer bytes _ =>
        if (bytes.length : Int) - start < 2 then ⟨.error .tooShort, pos, []⟩
        else ⟨(slice bytes start 2).map fun found => (bigEndian found : Int), pos, []⟩
    | memory cells =>
        if addressSpace < start + 2 then ⟨.error .tooShort, pos, []⟩
        else
          let (result, asked) := peekCells cells start
          ⟨result, pos, asked⟩

/-- From a position in a buffer that is not negative, bytes are taken as they come. -/
theorem slice_natCast (bytes : List UInt8) (pos size : Nat) :
    slice bytes pos size = .ok ((bytes.drop pos).take size) := by
  unfold slice
  rw [if_neg (by omega), Int.toNat_natCast]

/-- At a position that is not negative, a buffer lacks bytes of a layout or holds them all. -/
theorem bytesAt_buffer (bytes : List UInt8) (base : Int) (layout : Layout) (pos : Nat) :
    (buffer bytes base).bytesAt layout pos =
      if bytes.length < pos + layout.span then (.error .tooShort, [])
      else (.ok ((bytes.drop pos).take layout.packedSize), []) := by
  simp only [bytesAt, slice_natCast]
  by_cases hshort : bytes.length < pos + layout.span
  · rw [if_pos hshort, if_pos (by omega)]
  · rw [if_neg hshort, if_neg (by omega)]

end Source

end WordAtlas
