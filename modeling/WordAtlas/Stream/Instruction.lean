import WordAtlas.Stream.Source
import WordAtlas.Table

/-!
# Fetching instructions

An instruction is a word and the operand words that its definition asks for, first those of x and
then those of y.  To fetch one is to read its word, decode it, and read the operand words.  If the
stream ends in the middle, the position stays where the reading stopped.
-/

namespace WordAtlas

/-- An instruction word with its definition and operand words. -/
structure Instruction where
  address : Int
  word : Int
  definition : Definition
  xWords : List Int
  yWords : List Int
deriving DecidableEq, Repr

namespace Instruction

/-- The number that operand words denote, sixteen bits each, the most significant first. -/
def valueOfWords (words : List Int) : Int :=
  words.foldl (fun value word => Bits.either (value * 65536) word) 0

/-- The number of bytes of an instruction. -/
def length (instruction : Instruction) : Nat :=
  2 * (1 + instruction.xWords.length + instruction.yWords.length)

/-- The value of the x operand words. -/
def xValue (instruction : Instruction) : Int :=
  valueOfWords instruction.xWords

/-- The value of the y operand words. -/
def yValue (instruction : Instruction) : Int :=
  valueOfWords instruction.yWords

/-- The operand fields of the instruction word. -/
def fields (instruction : Instruction) : Except Word.OutOfRange Operands :=
  instruction.definition.format.splitNumber instruction.word

end Instruction

namespace Source

/-- The definition of a word that was read. -/
def decodeRead (table : Table) (word : Int) : Reading Definition :=
  match table.decodeNumber word with
  | .ok d => pure d
  | .error refused => Reading.fail (.notWord refused)

/-- Fetches the instruction at the position. -/
def fetch (source : Source) (table : Table) : Reading Instruction := do
  let pos ← Reading.position
  let word ← source.readWord
  let definition ← decodeRead table word
  let xWords ← source.readWord.times definition.xCount.val
  let yWords ← source.readWord.times definition.yCount.val
  return ⟨source.address pos, word, definition, xWords, yWords⟩

/-- What can be done with a source. -/
inductive Step
  | peek (offset : Int)
  | read
  | seek (target : Int)
  | fetch
  | unpack (layout : Layout)
deriving DecidableEq, Repr

/-- What a step gives. -/
inductive Outcome
  | nothing
  | number (z : Int)
  | instruction (instruction : Instruction)
deriving DecidableEq, Repr

/-- Does a step. -/
def perform (source : Source) (table : Table) : Step → Reading Outcome
  | .peek offset => do return .number (← source.peek offset)
  | .read => do return .number (← source.readWord)
  | .seek target => do
      Reading.seek target
      return .nothing
  | .fetch => do return .instruction (← source.fetch table)
  | .unpack layout => do return .number (← source.unpack layout)

/-- Does some steps in turn, each under a table of its own and from where the one before ended,
whether it failed or not. -/
def runUnder (source : Source) (pos : Int) : List (Table × Step) → List (Attempt Outcome)
  | [] => []
  | (table, step) :: rest =>
      let attempt := source.perform table step pos
      attempt :: source.runUnder attempt.pos rest

/-- Does some steps in turn under one table. -/
def run (source : Source) (table : Table) (pos : Int) (steps : List Step) :
    List (Attempt Outcome) :=
  source.runUnder pos (steps.map fun step => (table, step))

/-- After its first step, a run goes on from where the step ended. -/
theorem run_cons (source : Source) (table : Table) (pos : Int) (step : Step) (rest : List Step) :
    source.run table pos (step :: rest) =
      source.perform table step pos :: source.run table (source.perform table step pos).pos rest :=
  rfl

end Source

end WordAtlas
