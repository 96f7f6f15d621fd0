import WordAtlas.Json
import WordAtlas.Text.Hex

/-!
# Reading JSON

The reader takes a text apart by the grammar of JSON and builds the value that it denotes, fields in
the order in which they stand.  A number without fraction and exponent is an integer of any size;
any other one is kept as a decimal fraction.  Beyond the grammar, the words `Infinity`, `-Infinity`
and `NaN` are read as numbers.  An escape for half of a surrogate pair must be followed by one for
the other half.

Every nested call spends one unit of fuel.  A value spends at most two for each of its characters,
one to enter a list or record and one to enter the next item, so `ofText?` hands out two units a
character and two more.
-/

namespace WordAtlas.Json

/-- The four characters that may stand between the parts of a text. -/
def isSpace (c : Char) : Bool :=
  c == ' ' || c == '\n' || c == '\r' || c == '\t'

/-- A text without the spaces in front. -/
def skipSpaces (cs : List Char) : List Char :=
  cs.dropWhile isSpace

/-- The number that some decimal digits denote. -/
def valueOfDigits (digits : List Char) : Nat :=
  digits.foldl (fun n c => 10 * n + (c.toNat - '0'.toNat)) 0

/-- The digits in front of a text, and the rest. -/
def takeDigits (cs : List Char) : List Char × List Char :=
  (cs.takeWhile Char.isDigit, cs.dropWhile Char.isDigit)

/-- The digits of a fraction, if a point starts one. -/
def readFraction : List Char → Option (Option (List Char) × List Char)
  | '.' :: rest =>
      let (digits, rest) := takeDigits rest
      if digits.isEmpty then none else some (some digits, rest)
  | rest => some (none, rest)

/-- The sign in front of an exponent. -/
def readSign : List Char → Bool × List Char
  | '-' :: rest => (true, rest)
  | '+' :: rest => (false, rest)
  | rest => (false, rest)

/-- An exponent, if a letter starts one. -/
def readExponent : List Char → Option (Option Int × List Char)
  | c :: rest =>
      if c = 'e' ∨ c = 'E' then
        let (negative, rest) := readSign rest
        let (digits, rest) := takeDigits rest
        if digits.isEmpty then none
        else
          let size : Int := valueOfDigits digits
          some (some (if negative then -size else size), rest)
      else some (none, c :: rest)
  | [] => some (none, [])

/-- A number without its sign. -/
def readUnsigned (negative : Bool) (cs : List Char) : Option (Number × List Char) := do
  let (whole, rest) := takeDigits cs
  if whole.isEmpty || (whole.head? == some '0' && 1 < whole.length) then none
  let (fraction, rest) ← readFraction rest
  let (exponent, rest) ← readExponent rest
  match fraction, exponent with
  | none, none =>
      let size : Int := valueOfDigits whole
      return (.integer (if negative then -size else size), rest)
  | fraction, exponent =>
      let decimals := fraction.getD []
      return (.decimal negative (valueOfDigits (whole ++ decimals))
        (exponent.getD 0 - (decimals.length : Int)), rest)

/-- A text without the given word in front, if it begins with it. -/
def dropWord? (word : String) (cs : List Char) : Option (List Char) :=
  if word.toList.isPrefixOf cs then some (cs.drop word.length) else none

/-- A number. -/
def readNumber (cs : List Char) : Option (Number × List Char) :=
  let (negative, size) := match cs with
    | '-' :: rest => (true, rest)
    | rest => (false, rest)
  match dropWord? "Infinity" size with
  | some rest => some (.infinity negative, rest)
  | none =>
      match dropWord? "NaN" cs with
      | some rest => some (.undefined, rest)
      | none => readUnsigned negative size

/-- Four hexadecimal digits. -/
def readUnit : List Char → Option (Nat × List Char)
  | a :: b :: c :: d :: rest => do
      let a ← Text.Hex.value? a
      let b ← Text.Hex.value? b
      let c ← Text.Hex.value? c
      let d ← Text.Hex.value? d
      return (((a * 16 + b) * 16 + c) * 16 + d, rest)
  | _ => none

/-- The character of a code unit, or of the surrogate pair that it begins. -/
def readUnits (cs : List Char) : Option (Char × List Char) := do
  let (unit, rest) ← readUnit cs
  if 0xD800 ≤ unit ∧ unit < 0xDC00 then
    match rest with
    | '\\' :: 'u' :: rest => do
        let (low, rest) ← readUnit rest
        if 0xDC00 ≤ low ∧ low < 0xE000 then
          return (Char.ofNat (0x10000 + (unit - 0xD800) * 0x400 + (low - 0xDC00)), rest)
        else none
    | _ => none
  else if 0xDC00 ≤ unit ∧ unit < 0xE000 then none
  else return (Char.ofNat unit, rest)

/-- The character that an escape of one letter stands for. -/
def unescape? (c : Char) : Option Char :=
  [('"', '"'), ('\\', '\\'), ('/', '/'), ('b', '\x08'), ('f', '\x0c'), ('n', '\n'), ('r', '\r'),
   ('t', '\t')].lookup c

/-- The characters of a string up to its closing quote, after those read already. -/
def readString (fuel : Nat) (taken : List Char) (cs : List Char) : Option (String × List Char) :=
  match fuel, cs with
  | 0, _ => none
  | _ + 1, [] => none
  | _ + 1, '"' :: rest => some (String.ofList taken.reverse, rest)
  | fuel + 1, '\\' :: 'u' :: rest =>
      match readUnits rest with
      | some (c, rest) => readString fuel (c :: taken) rest
      | none => none
  | fuel + 1, '\\' :: letter :: rest =>
      match unescape? letter with
      | some c => readString fuel (c :: taken) rest
      | none => none
  | fuel + 1, c :: rest =>
      if c = '\\' ∨ c.toNat < 0x20 then none else readString fuel (c :: taken) rest

mutual

/-- A value, spaces in front allowed. -/
def readValue (fuel : Nat) (cs : List Char) : Option (Json Number × List Char) :=
  match fuel with
  | 0 => none
  | fuel + 1 =>
      match skipSpaces cs with
      | 'n' :: 'u' :: 'l' :: 'l' :: rest => some (.null, rest)
      | 't' :: 'r' :: 'u' :: 'e' :: rest => some (.bool true, rest)
      | 'f' :: 'a' :: 'l' :: 's' :: 'e' :: rest => some (.bool false, rest)
      | '"' :: rest => (readString fuel [] rest).map fun (s, rest) => (.string s, rest)
      | '[' :: rest =>
          match skipSpaces rest with
          | ']' :: rest => some (.array [], rest)
          | rest => readItems fuel [] rest
      | '{' :: rest =>
          match skipSpaces rest with
          | '}' :: rest => some (.object [], rest)
          | rest => readFields fuel [] rest
      | rest => (readNumber rest).map fun (n, rest) => (.number n, rest)

/-- The items of a list up to its closing bracket, after those read already. -/
def readItems (fuel : Nat) (taken : List (Json Number)) (cs : List Char) :
    Option (Json Number × List Char) :=
  match fuel with
  | 0 => none
  | fuel + 1 =>
      match readValue fuel cs with
      | none => none
      | some (item, rest) =>
          match skipSpaces rest with
          | ',' :: rest => readItems fuel (item :: taken) rest
          | ']' :: rest => some (.array (item :: taken).reverse, rest)
          | _ => none

/-- The fields of a record up to its closing brace, after those read already. -/
def readFields (fuel : Nat) (taken : List (String × Json Number)) (cs : List Char) :
    Option (Json Number × List Char) :=
  match fuel with
  | 0 => none
  | fuel + 1 =>
      match skipSpaces cs with
      | '"' :: rest =>
          match readString fuel [] rest with
          | none => none
          | some (name, rest) =>
              match skipSpaces rest with
              | ':' :: rest =>
                  match readValue fuel rest with
                  | none => none
                  | some (value, rest) =>
                      match skipSpaces rest with
                      | ',' :: rest => readFields fuel ((name, value) :: taken) rest
                      | '}' :: rest => some (.object ((name, value) :: taken).reverse, rest)
                      | _ => none
              | _ => none
      | _ => none

end

/-- The value that a text denotes, with nothing but spaces around it. -/
def ofChars? (cs : List Char) : Option (Json Number) :=
  match readValue (2 * cs.length + 2) cs with
  | some (value, rest) => if (skipSpaces rest).isEmpty then some value else none
  | none => none

/-- The value that a text denotes. -/
def ofText? (s : String) : Option (Json Number) :=
  ofChars? s.toList

end WordAtlas.Json
