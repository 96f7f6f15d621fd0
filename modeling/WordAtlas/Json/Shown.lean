import WordAtlas.Catalog.Data
import WordAtlas.Decimal.Shortest
import WordAtlas.Json
import WordAtlas.Text.Quoted

/-!
# Values in messages

A message about a value from outside shows it as an expression: texts in quotes, lists in brackets,
records in braces, nothing as `None`.  A decimal fraction is shown by the shortest digits of its
floating-point number, positionally when the leading digit counts from `10 ^ -4` to `10 ^ 15` and
with an exponent of at least two digits otherwise, so that it can be told from an integer.

A kind of literal data is given by its number, and any value equal to that number will do.
-/

namespace WordAtlas

namespace Number

/-- The exponent of a number in scientific notation, with its sign and at least two digits. -/
def shownExponent (e : Int) : List Char :=
  let digits := Nat.toDigits 10 e.natAbs
  'e' :: (if e < 0 then '-' else '+') :: (if digits.length < 2 then '0' :: digits else digits)

/-- Digits with a point behind the first `count` of them, filled up with zeros on both sides. -/
def shownPositional (digits : List Char) (exponent : Int) : List Char :=
  if exponent < 0 then
    '0' :: '.' :: List.replicate (-exponent - 1).toNat '0' ++ digits
  else
    let count := exponent.toNat + 1
    let whole := digits.take count ++ List.replicate (count - digits.length) '0'
    let decimals := digits.drop count
    whole ++ '.' :: (if decimals.isEmpty then ['0'] else decimals)

/-- Digits with a point behind the first of them, if there are more, and an exponent. -/
def shownScientific (digits : List Char) (exponent : Int) : List Char :=
  let decimals := digits.drop 1
  digits.take 1 ++ (if decimals.isEmpty then [] else '.' :: decimals) ++ shownExponent exponent

/-- How a message shows a floating-point number. -/
def shownDouble : Double → List Char
  | .infinite negative => (if negative then ['-'] else []) ++ ['i', 'n', 'f']
  | .finite negative m q =>
      let size :=
        if m = 0 then ['0', '.', '0']
        else
          let shown := Shortest.ofBinary m q
          if -4 ≤ shown.exponent ∧ shown.exponent < 16 then
            shownPositional shown.digits shown.exponent
          else shownScientific shown.digits shown.exponent
      (if negative then ['-'] else []) ++ size

/-- How a message shows a number. -/
def shown : Number → List Char
  | integer z => (toString z).toList
  | decimal negative digits exponent => shownDouble (.ofDecimal negative digits exponent)
  | infinity negative => shownDouble (.infinite negative)
  | undefined => ['n', 'a', 'n']

/-- The integer that a number is equal to, if there is one. -/
def toInt? : Number → Option Int
  | integer z => some z
  | decimal negative digits exponent => (Double.ofDecimal negative digits exponent).toInt?
  | infinity _ => none
  | undefined => none

end Number

namespace Json

mutual

/-- How a message shows a value. -/
def shown : Json Number → List Char
  | .null => ['N', 'o', 'n', 'e']
  | .bool true => ['T', 'r', 'u', 'e']
  | .bool false => ['F', 'a', 'l', 's', 'e']
  | .number n => n.shown
  | .string s => Text.Quoted.quoted s.toList
  | .array [] => ['[', ']']
  | .array (item :: rest) => '[' :: shown item ++ shownItems rest ++ [']']
  | .object [] => ['{', '}']
  | .object ((name, value) :: rest) =>
      '{' :: Text.Quoted.quoted name.toList ++ ':' :: ' ' :: shown value ++ shownFields rest ++
        ['}']

/-- How a message shows the items after the first one of a list. -/
def shownItems : List (Json Number) → List Char
  | [] => []
  | item :: rest => ',' :: ' ' :: shown item ++ shownItems rest

/-- How a message shows the fields after the first one of a record. -/
def shownFields : List (String × Json Number) → List Char
  | [] => []
  | (name, value) :: rest =>
      ',' :: ' ' :: Text.Quoted.quoted name.toList ++ ':' :: ' ' :: shown value ++ shownFields rest

end

/-- The integer that a value is equal to, if there is one; truth values count as 0 and 1. -/
def toInt? : Json Number → Option Int
  | .bool b => some (if b then 1 else 0)
  | .number n => n.toInt?
  | _ => none

end Json

namespace DataKind

/-- A value that is no kind of literal data. -/
structure Unknown where
  value : Json Number

/-- The message about a value that is no kind of literal data. -/
def Unknown.message (e : Unknown) : String :=
  "Unknown data kind: " ++ String.ofList e.value.shown

/-- The kind of literal data that a value from outside stands for. -/
def ofValue (value : Json Number) : Except Unknown DataKind :=
  match value.toInt?.bind ofNumber? with
  | some kind => .ok kind
  | none => .error ⟨value⟩

end DataKind

end WordAtlas
