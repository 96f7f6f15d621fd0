import WordAtlas.Text.Blank
import WordAtlas.Text.DecimalDigit
import WordAtlas.Text.Hex
import WordAtlas.Text.Pieces
import WordAtlas.Text.Quoted
import WordAtlas.Word

/-!
# Numerals

A numeral is an optional sign and digits: decimal ones, or those of base 16, 8 or 2 behind `0x`,
`0o` or `0b` in either case.  A decimal numeral has no zeros in front unless it is made of zeros
alone.  Single underscores may stand between digits and right behind `0x`, `0o` or `0b`.  Blanks
around a numeral do not matter.  Beyond ASCII, the decimal digits of other scripts stand for those
of ASCII, and blanks for spaces; no other such character can be part of a numeral.  Decimal numerals
of more than 4300 digits are refused.
-/

namespace WordAtlas

namespace Numeral

/-- The ASCII character that a character of a numeral stands for. -/
def plain? (c : Char) : Option Char :=
  if c.toNat < 128 then some c
  else if Text.isBlank c then some ' '
  else (Text.decimalValue? c).map fun n => Char.ofNat ('0'.toNat + n)

/-- The value of a digit in the given base. -/
def digit? (base : Nat) (c : Char) : Option Nat :=
  (Text.Hex.value? c).filter (· < base)

/-- The value of digits in the given base. -/
def valueOf (base : Nat) (digits : List Nat) : Nat :=
  digits.foldl (fun n digit => base * n + digit) 0

/-- The digits of a numeral in the given base, single underscores between them left out. -/
def digits? (base : Nat) (cs : List Char) : Option (List Nat) :=
  let groups := Text.pieces '_' cs
  if groups.any List.isEmpty then none else groups.flatten.mapM (digit? base)

/-- The most digits that a decimal numeral may have. -/
def decimalLimit : Nat := 4300

/-- The value of the digits behind the mark of a base, where one underscore may come first. -/
def marked? (base : Nat) (cs : List Char) : Option Nat :=
  let cs := match cs with
    | '_' :: rest => rest
    | cs => cs
  (digits? base cs).map (valueOf base)

/-- The value of a decimal numeral. -/
def decimal? (cs : List Char) : Option Nat := do
  let digits ← digits? 10 cs
  let value := valueOf 10 digits
  if decimalLimit < digits.length then none
  if cs.head? == some '0' && value != 0 then none
  return value

/-- The value of a numeral without sign. -/
def unsigned? : List Char → Option Nat
  | '0' :: mark :: rest =>
      if mark = 'x' ∨ mark = 'X' then marked? 16 rest
      else if mark = 'o' ∨ mark = 'O' then marked? 8 rest
      else if mark = 'b' ∨ mark = 'B' then marked? 2 rest
      else decimal? ('0' :: mark :: rest)
  | cs => decimal? cs

/-- The value of a numeral with nothing around it. -/
def signed? : List Char → Option Int
  | '-' :: rest => (unsigned? rest).map fun n => -(n : Int)
  | '+' :: rest => (unsigned? rest).map Int.ofNat
  | cs => (unsigned? cs).map Int.ofNat

/-- The value of a numeral. -/
def value? (cs : List Char) : Option Int := do
  let plain ← cs.mapM plain?
  signed? (Text.trimBoth Text.isPlainBlank plain)

end Numeral

namespace Word

/-- Why a text does not name a word. -/
inductive Misnamed
  /-- The text is no numeral. -/
  | notNumeral (text : String)
  /-- The numeral denotes no word. -/
  | outOfRange (text : String)
deriving DecidableEq, Repr

/-- The message about a text that does not name a word. -/
def Misnamed.message : Misnamed → String
  | notNumeral text => "not a number: " ++ Text.Quoted.ofString text
  | outOfRange text => "instruction word out of range: " ++ text

/-- The word that a text names. -/
def ofText (text : String) : Except Misnamed Word :=
  match Numeral.value? text.toList with
  | none => .error (.notNumeral text)
  | some z =>
      match Word.ofInt z with
      | .ok w => .ok w
      | .error _ => .error (.outOfRange text)

end Word

end WordAtlas
