/-!
# JSON values

Values are trees of lists and of records whose fields are in order.  The type is open in what its
numbers are: the program writes integers alone, `Json Int`, while texts from outside may also hold
decimal fractions, `Json Number`.

`sortFields` puts the fields of every record in the order of their names, compared code point by
code point, which is the order in which values are written.
-/

namespace WordAtlas

/-- A JSON value whose numbers are of type `ν`. -/
inductive Json (ν : Type)
  | null
  | bool (b : Bool)
  | number (n : ν)
  | string (s : String)
  | array (items : List (Json ν))
  | object (fields : List (String × Json ν))

/-- A number as it is written in a text: an integer, a decimal fraction, which is
`digits · 10 ^ exponent` with a sign of its own, or one of the words for an infinity and for no
number at all. -/
inductive Number
  | integer (z : Int)
  | decimal (negative : Bool) (digits : Nat) (exponent : Int)
  | infinity (negative : Bool)
  | undefined
deriving DecidableEq, Repr

namespace Json

variable {ν : Type}

instance : Inhabited (Json ν) := ⟨null⟩

/-- The value of a field of a record. -/
def field? (name : String) : Json ν → Option (Json ν)
  | object fields => fields.lookup name
  | _ => none

/-- Puts a field in front of the first one whose name is not smaller. -/
def insertField (name : String) (value : Json ν) :
    List (String × Json ν) → List (String × Json ν)
  | [] => [(name, value)]
  | (other, held) :: rest =>
      if name ≤ other then (name, value) :: (other, held) :: rest
      else (other, held) :: insertField name value rest

mutual

/-- The value with the fields of every record in the order of their names. -/
def sortFields : Json ν → Json ν
  | null => null
  | bool b => bool b
  | number n => number n
  | string s => string s
  | array items => array (sortItems items)
  | object fields => object (sortedFields fields)

/-- The items of a list, the fields of each in order. -/
def sortItems : List (Json ν) → List (Json ν)
  | [] => []
  | item :: rest => sortFields item :: sortItems rest

/-- The fields of a record in order, and the fields of each of their values as well. -/
def sortedFields : List (String × Json ν) → List (String × Json ν)
  | [] => []
  | (name, value) :: rest => insertField name (sortFields value) (sortedFields rest)

end

end Json

end WordAtlas
