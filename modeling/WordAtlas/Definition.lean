import WordAtlas.Bits
import WordAtlas.Operand
import WordAtlas.Word.Mask

/-!
# Instruction definitions

A definition claims a set of words and describes the instructions that they encode.  It claims the
words that agree with its `encoding` on the set bits of its `mask`.  The description consists of
the format of the word, the number of further words that follow it as operands, a mnemonic, two
short strings that tell a disassembler how to show the operands and an emulator what happens, and
the kind of control flow.

The bounds on the numbers belong to the types.  A `Draft` holds the same description with numbers
of any size, and `Draft.check` turns it into a definition or names the first number that does not
fit.
-/

namespace WordAtlas

/-- The kind of control flow of an instruction. -/
inductive Flow
  | none
  | call
  | jmp
  | bra
  | int
  | inte
  | ret
deriving DecidableEq, Repr

namespace Flow

/-- All kinds of control flow, in the order in which they are listed. -/
def all : List Flow :=
  [none, call, jmp, bra, int, inte, ret]

/-- The name of a kind of control flow, in capitals. -/
def name : Flow → String
  | none => "NONE"
  | call => "CALL"
  | jmp => "JMP"
  | bra => "BRA"
  | int => "INT"
  | inte => "INTE"
  | ret => "RET"

/-- The word for a kind of control flow, in small letters. -/
def text : Flow → String
  | none => "none"
  | call => "call"
  | jmp => "jmp"
  | bra => "bra"
  | int => "int"
  | inte => "inte"
  | ret => "ret"

/-- The kind of control flow with the given name. -/
def ofName? (s : String) : Option Flow :=
  all.find? fun flow => flow.name == s

/-- The names tell the kinds of control flow apart. -/
theorem ofName?_name (flow : Flow) : ofName? flow.name = some flow := by
  cases flow <;> decide

end Flow

/-- Numerals denote counts of operand words. -/
instance instNeZeroCounts : @NeZero Nat Zero.ofOfNat0 256 := ⟨Nat.succ_ne_zero 255⟩

/-- What one instruction is: the words it claims and how they are to be read. -/
structure Definition where
  encoding : Word
  mask : Word
  format : Format
  xCount : Fin 256
  yCount : Fin 256
  name : String
  display : String
  action : String
  flow : Flow
  conditional : Bool
  delaySlot : Bool
deriving DecidableEq, Repr

namespace Definition

/-- The bits of the word that the mask leaves to the operands. -/
def freeBits (d : Definition) : Nat :=
  Mask.freeBits d.mask

/-- The number of operand words that follow the instruction word. -/
def extraWords (d : Definition) : Nat :=
  d.xCount.val + d.yCount.val

/-- The first word of the range that starts at the encoding and runs through the free bits. -/
def first (d : Definition) : Nat :=
  d.encoding.val

/-- The end of that range, exclusive.  With a prefix mask and no encoding bits outside it, the
range holds exactly the claimed words. -/
def stop (d : Definition) : Nat :=
  d.encoding.val + d.freeBits + 1

/-- Whether a number of any size agrees with the encoding on the bits of the mask. -/
def covers (d : Definition) (z : Int) : Bool :=
  Bits.masked z d.mask.val == d.encoding.val

/-- Whether two definitions have the same encoding and mask. -/
def sameSlot (d other : Definition) : Bool :=
  d.encoding == other.encoding && d.mask == other.mask

/-- Whether the encoding sets no bit outside the mask. -/
def fitsMask (d : Definition) : Bool :=
  d.encoding.val &&& d.mask.val == d.encoding.val

/-- How messages and listings refer to a definition: its mnemonic and its encoding. -/
def label (d : Definition) : String :=
  d.name ++ "(" ++ Text.Hex.ofInt d.encoding.val ++ ")"

end Definition

/-- A description of an instruction whose numbers have not been checked. -/
structure Draft where
  encoding : Int
  mask : Int
  format : Format
  xCount : Int
  yCount : Int
  name : String
  display : String
  action : String
  flow : Flow
  conditional : Bool
  delaySlot : Bool
deriving DecidableEq, Repr

namespace Draft

/-- The number of a draft that does not fit. -/
inductive Unfit
  | encoding (value : Int)
  | mask (value : Int)
  | xCount (value : Int)
  | yCount (value : Int)
deriving DecidableEq, Repr

/-- The message about a number that does not fit. -/
def Unfit.message : Unfit → String
  | .encoding value => s!"encoding out of range: {Text.Hex.ofInt value}"
  | .mask value => s!"mask out of range: {Text.Hex.ofInt value}"
  | .xCount value => s!"extra_word_count_x out of range: {value}"
  | .yCount value => s!"extra_word_count_y out of range: {value}"

/-- A number from 0 to 255, or the complaint that it is not one. -/
def count (complaint : Int → Unfit) (z : Int) : Except Unfit (Fin 256) :=
  if h : 0 ≤ z ∧ z < 256 then .ok ⟨z.toNat, by omega⟩ else .error (complaint z)

/-- A sixteen-bit number, or the complaint that it is not one. -/
def word (complaint : Int → Unfit) (z : Int) : Except Unfit Word :=
  (Word.ofInt z).mapError fun refused => complaint refused.value

/-- The definition of a draft.  The numbers are checked in the order encoding, mask, count of x
words, count of y words, and the first that does not fit is reported. -/
def check (draft : Draft) : Except Unfit Definition := do
  let encoding ← word .encoding draft.encoding
  let mask ← word .mask draft.mask
  let xCount ← count .xCount draft.xCount
  let yCount ← count .yCount draft.yCount
  return {
    encoding, mask, xCount, yCount
    format := draft.format
    name := draft.name
    display := draft.display
    action := draft.action
    flow := draft.flow
    conditional := draft.conditional
    delaySlot := draft.delaySlot }

/-- The draft that says what a definition says. -/
def ofDefinition (d : Definition) : Draft where
  encoding := d.encoding.val
  mask := d.mask.val
  format := d.format
  xCount := d.xCount.val
  yCount := d.yCount.val
  name := d.name
  display := d.display
  action := d.action
  flow := d.flow
  conditional := d.conditional
  delaySlot := d.delaySlot

@[simp] theorem word_val (complaint : Int → Unfit) (w : Word) :
    word complaint (w.val : Int) = .ok w := by
  unfold word
  rw [Word.ofInt_val]
  rfl

@[simp] theorem count_val (complaint : Int → Unfit) (n : Fin 256) :
    count complaint (n.val : Int) = .ok n := by
  have := n.isLt
  unfold count
  rw [dif_pos (by omega)]
  rfl

/-- What a definition says passes the check and gives the definition back. -/
theorem check_ofDefinition (d : Definition) : (ofDefinition d).check = .ok d := by
  unfold check ofDefinition
  rw [word_val, word_val, count_val, count_val]
  rfl

end Draft

end WordAtlas
