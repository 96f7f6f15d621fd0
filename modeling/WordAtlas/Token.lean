import WordAtlas.Definition
import WordAtlas.Text.Quoted

/-!
# Display and action tokens

The two short strings of a definition are written in two small languages of single-character
tokens.  The display string tells how the operands are shown:

    # ( ) + , - ; @ space   copied as they are
    &           shows a comma
    2 4         the constant is multiplied by 2 or 4
    r           the constant is a relative address
    I J         the constant is loaded from Ri or Rj if that is known
    b           16 is added to the constant
    x y         the register list is reversed, or covers the upper registers
    s u n d     the constant as signed, unsigned, negative hexadecimal, or decimal
    a f q p z   the constant as characters, quotient, ratio, pair, or register list
    A C F M P S one of six fixed registers
    i j g h k l a general, dedicated or coprocessor register named by Ri or Rj
    v c T       the vector number, the coprocessor operation, the vector tag

The action string tells what happens: `!` jump, `?` branch, `(` call, `)` return, `_` delay slot,
a register token makes that register current, `w` marks it unknown, `v` loads it, `x` leaves it
undefined.

The order of the vocabularies is the order in which they are listed.
-/

namespace WordAtlas

/-- What a display token does. -/
inductive DisplayKind
  | literal
  | modifier
  | value
  | fixedRegister
  | register
  | special
deriving DecidableEq, Repr

/-- What an action token does. -/
inductive ActionKind
  | flow
  | delaySlot
  | register
  | effect
deriving DecidableEq, Repr

/-- The word for a kind of display token. -/
def DisplayKind.text : DisplayKind → String
  | literal => "literal"
  | modifier => "modifier"
  | value => "value"
  | fixedRegister => "fixed_register"
  | register => "register"
  | special => "special"

/-- The word for a kind of action token. -/
def ActionKind.text : ActionKind → String
  | flow => "flow"
  | delaySlot => "delay_slot"
  | register => "register"
  | effect => "effect"

namespace Token

/-- The display tokens that are copied as they are, in code point order. -/
def copied : List Char :=
  [' ', '#', '(', ')', '+', ',', '-', ';', '@']

/-- The display vocabulary. -/
def display : List (Char × DisplayKind) :=
  copied.map (·, .literal) ++
  [('&', .literal),
   ('2', .modifier), ('4', .modifier), ('r', .modifier), ('I', .modifier), ('J', .modifier),
   ('b', .modifier), ('x', .modifier), ('y', .modifier),
   ('s', .value), ('u', .value), ('n', .value), ('d', .value), ('a', .value), ('f', .value),
   ('q', .value), ('p', .value), ('z', .value),
   ('A', .fixedRegister), ('C', .fixedRegister), ('F', .fixedRegister), ('M', .fixedRegister),
   ('P', .fixedRegister), ('S', .fixedRegister),
   ('i', .register), ('j', .register), ('g', .register), ('h', .register), ('k', .register),
   ('l', .register),
   ('v', .special), ('c', .special), ('T', .special)]

/-- The action vocabulary. -/
def action : List (Char × ActionKind) :=
  [('!', .flow), ('?', .flow), ('(', .flow), (')', .flow), ('_', .delaySlot),
   ('A', .register), ('C', .register), ('F', .register), ('M', .register), ('P', .register),
   ('S', .register), ('i', .register), ('j', .register),
   ('w', .effect), ('v', .effect), ('x', .effect)]

/-- The texts that the fixed register tokens show. -/
def fixedRegisters : List (Char × String) :=
  [('A', "AC"), ('C', "CCR"), ('F', "FP"), ('M', "ILM"), ('P', "PS"), ('S', "SP")]

/-- The kind of a display token. -/
def displayKind? (c : Char) : Option DisplayKind :=
  display.lookup c

/-- The kind of an action token. -/
def actionKind? (c : Char) : Option ActionKind :=
  action.lookup c

/-- The characters of a display string that are no tokens, in order. -/
def unknownDisplay (cs : List Char) : List Char :=
  cs.filter fun c => (displayKind? c).isNone

/-- The characters of an action string that are no tokens, in order. -/
def unknownAction (cs : List Char) : List Char :=
  cs.filter fun c => (actionKind? c).isNone

/-- A string of a definition that steps outside its vocabulary, with the characters at fault. -/
inductive Fault
  | display (definition : Definition) (unknown : List Char)
  | action (definition : Definition) (unknown : List Char)
deriving DecidableEq, Repr

/-- The message about a string that steps outside its vocabulary. -/
def Fault.message : Fault → String
  | .display d unknown =>
      d.label ++ ": unknown display tokens " ++ String.ofList (Text.Quoted.quoted unknown) ++
        " in " ++ Text.Quoted.ofString d.display
  | .action d unknown =>
      d.label ++ ": unknown action tokens " ++ String.ofList (Text.Quoted.quoted unknown) ++
        " in " ++ Text.Quoted.ofString d.action

/-- The display string of a definition is checked before its action string. -/
def faultsOf (d : Definition) : List Fault :=
  let badDisplay := unknownDisplay d.display.toList
  let badAction := unknownAction d.action.toList
  (if badDisplay.isEmpty then [] else [.display d badDisplay]) ++
    if badAction.isEmpty then [] else [.action d badAction]

/-- Every string of the definitions that steps outside its vocabulary, in order. -/
def faults (definitions : List Definition) : List Fault :=
  definitions.flatMap faultsOf

/-- A definition without fault writes both of its strings in the vocabularies. -/
theorem faultsOf_eq_nil_iff {d : Definition} :
    faultsOf d = [] ↔
      (∀ c ∈ d.display.toList, (displayKind? c).isSome) ∧
      (∀ c ∈ d.action.toList, (actionKind? c).isSome) := by
  have key : ∀ (p : Char → Bool) (cs : List Char),
      (cs.filter fun c => !p c).isEmpty = true ↔ ∀ c ∈ cs, p c = true := by
    intro p cs
    simp [List.isEmpty_iff, List.filter_eq_nil_iff]
  have hd := key (fun c => (displayKind? c).isSome) d.display.toList
  have ha := key (fun c => (actionKind? c).isSome) d.action.toList
  simp only [Option.not_isSome] at hd ha
  unfold faultsOf unknownDisplay unknownAction
  rw [← hd, ← ha]
  by_cases h1 : (d.display.toList.filter fun c => (displayKind? c).isNone).isEmpty <;>
    by_cases h2 : (d.action.toList.filter fun c => (actionKind? c).isNone).isEmpty <;>
    simp [h1, h2]

end Token

end WordAtlas
