import WordAtlas.Word

/-!
# Formats and operand fields

The *format* of an instruction says where in its word the operands are.  `Format.split` cuts a
word into the fields that its format has; the bits that belong to no field are the operation.

    A   operation, Rj (4 bits), Ri (4 bits)
    B   operation, x (8 bits), Ri (4 bits)
    C   operation, x (4 bits), Ri (4 bits)
    D   operation, x (8 bits)
    E   operation, Ri (4 bits)
    F   operation, half of a signed offset (11 bits)
    Z   operation only
    W   x (16 bits): literal data

`Format.pack` puts the fields back into their places.  Cutting loses nothing: the packed fields of a
word are the bits of the word that the format gives to operands (`pack_split`).
-/

namespace WordAtlas

/-- The layout of an instruction word. -/
inductive Format
  | a
  | b
  | c
  | d
  | e
  | f
  | z
  | w
deriving DecidableEq, Repr

/-- The operand fields of a word.  A field that the format does not have is `none`; `offset` is
signed and counts bytes. -/
structure Operands where
  ri : Option Nat := none
  rj : Option Nat := none
  x : Option Nat := none
  offset : Option Int := none
deriving DecidableEq, Repr

namespace Format

/-- All formats, in the order of their letters in the manual. -/
def all : List Format :=
  [a, b, c, d, e, f, z, w]

/-- The letter that names a format. -/
def letter : Format → String
  | a => "A"
  | b => "B"
  | c => "C"
  | d => "D"
  | e => "E"
  | f => "F"
  | z => "Z"
  | w => "W"

/-- The format with the given letter. -/
def ofLetter? (s : String) : Option Format :=
  all.find? fun format => format.letter == s

/-- The low eleven bits of a number read as a signed number. -/
def signed11 (n : Nat) : Int :=
  if n % 0x800 < 0x400 then (n % 0x800 : Nat) else (n % 0x800 : Nat) - 0x800

/-- The operand fields of a word in this format. -/
def split (format : Format) (word : Word) : Operands :=
  match format with
  | a => { ri := some (word.val % 16), rj := some (word.val / 16 % 16) }
  | b => { ri := some (word.val % 16), x := some (word.val / 16 % 256) }
  | c => { ri := some (word.val % 16), x := some (word.val / 16 % 16) }
  | d => { x := some (word.val % 256) }
  | e => { ri := some (word.val % 16) }
  | f => { offset := some (2 * signed11 word.val) }
  | z => {}
  | w => { x := some word.val }

/-- The operand fields of a number in this format; only words have any. -/
def splitNumber (format : Format) (z : Int) : Except Word.OutOfRange Operands :=
  (Word.ofInt z).map format.split

/-- The bits of a word that belong to operand fields. -/
def operandMask : Format → Nat
  | a => 0xFF
  | b => 0xFFF
  | c => 0xFF
  | d => 0xFF
  | e => 0xF
  | f => 0x7FF
  | z => 0
  | w => 0xFFFF

/-- The operand bits that hold the given fields, a field that is not given counting as zero. -/
def pack (format : Format) (fields : Operands) : Nat :=
  match format with
  | a => fields.rj.getD 0 * 16 + fields.ri.getD 0
  | b => fields.x.getD 0 * 16 + fields.ri.getD 0
  | c => fields.x.getD 0 * 16 + fields.ri.getD 0
  | d => fields.x.getD 0
  | e => fields.ri.getD 0
  | f => (fields.offset.getD 0 / 2 % 0x800).toNat
  | z => 0
  | w => fields.x.getD 0

/-- Halving a signed offset and reducing it gives its eleven bits back. -/
theorem signed11_emod (n : Nat) : (signed11 n % 0x800).toNat = n % 0x800 := by
  unfold signed11
  split <;> omega

/-- The operand bits of a word are its remainder by a power of two. -/
theorem and_operandMask (format : Format) (word : Word) :
    word.val &&& format.operandMask = word.val % (format.operandMask + 1) := by
  have key (k : Nat) : word.val &&& (2 ^ k - 1) = word.val % 2 ^ k :=
    Nat.and_two_pow_sub_one_eq_mod _ k
  cases format
  case a => exact key 8
  case b => exact key 12
  case c => exact key 8
  case d => exact key 8
  case e => exact key 4
  case f => exact key 11
  case z => exact key 0
  case w => exact key 16

/-- Packing the fields of a word gives its operand bits. -/
theorem pack_split (format : Format) (word : Word) :
    format.pack (format.split word) = word.val &&& format.operandMask := by
  rw [and_operandMask]
  have := word.isLt
  cases format <;> simp only [pack, split, operandMask, Option.getD_some]
  case f =>
    have hhalf : 2 * signed11 word.val / 2 = signed11 word.val := by omega
    rw [hhalf]
    exact signed11_emod word.val
  all_goals omega

/-- The letters tell the formats apart. -/
theorem ofLetter?_letter (format : Format) : ofLetter? format.letter = some format := by
  cases format <;> decide

end Format

end WordAtlas
