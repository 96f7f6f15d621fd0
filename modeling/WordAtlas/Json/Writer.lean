import WordAtlas.Json
import WordAtlas.Text.Hex

/-!
# Writing JSON

A value is written in ASCII alone: characters beyond it, controls and the delete character are
escaped, those beyond U+FFFF as a pair of surrogates.  The two styles differ only in the blanks
between the parts.  The compact one has none; the spread one gives every item and field a line of
its own, indented by two spaces a level, and ends the text with a line feed.  Empty lists and
records are written without a break in both.
-/

namespace WordAtlas.Json

/-- The blanks of a way to write values: those after a colon, and the break in front of an item at
a given depth. -/
structure Style where
  afterColon : List Char
  lineBreak : Nat → List Char

namespace Style

/-- No blanks at all. -/
def compact : Style where
  afterColon := []
  lineBreak _ := []

/-- A line for every item, indented by two spaces a level. -/
def spread : Style where
  afterColon := [' ']
  lineBreak depth := '\n' :: List.replicate (2 * depth) ' '

end Style

/-- An integer in decimal. -/
def writeInt (z : Int) : List Char :=
  if z < 0 then '-' :: Nat.toDigits 10 z.natAbs else Nat.toDigits 10 z.natAbs

/-- The escape of a code unit of sixteen bits. -/
def writeUnit (n : Nat) : List Char :=
  '\\' :: 'u' :: Text.Hex.filled 4 n

/-- One character inside a string. -/
def writeChar (c : Char) : List Char :=
  if c = '"' then ['\\', '"']
  else if c = '\\' then ['\\', '\\']
  else if c = '\n' then ['\\', 'n']
  else if c = '\r' then ['\\', 'r']
  else if c = '\t' then ['\\', 't']
  else if c.toNat = 8 then ['\\', 'b']
  else if c.toNat = 12 then ['\\', 'f']
  else if 0x20 ≤ c.toNat ∧ c.toNat ≤ 0x7E then [c]
  else if c.toNat < 0x10000 then writeUnit c.toNat
  else
    let n := c.toNat - 0x10000
    writeUnit (0xD800 + n / 0x400) ++ writeUnit (0xDC00 + n % 0x400)

/-- A string between its quotes. -/
def writeString (s : String) : List Char :=
  '"' :: s.toList.flatMap writeChar ++ ['"']

mutual

/-- A value at the given depth, its fields as they are in order. -/
def write (style : Style) (depth : Nat) : Json Int → List Char
  | .null => ['n', 'u', 'l', 'l']
  | .bool true => ['t', 'r', 'u', 'e']
  | .bool false => ['f', 'a', 'l', 's', 'e']
  | .number z => writeInt z
  | .string s => writeString s
  | .array [] => ['[', ']']
  | .array (item :: rest) =>
      '[' :: style.lineBreak (depth + 1) ++ write style (depth + 1) item ++
        writeItems style (depth + 1) rest ++ style.lineBreak depth ++ [']']
  | .object [] => ['{', '}']
  | .object ((name, value) :: rest) =>
      '{' :: style.lineBreak (depth + 1) ++ writeString name ++ ':' :: style.afterColon ++
        write style (depth + 1) value ++ writeFields style (depth + 1) rest ++
        style.lineBreak depth ++ ['}']

/-- The items after the first one of a list. -/
def writeItems (style : Style) (depth : Nat) : List (Json Int) → List Char
  | [] => []
  | item :: rest =>
      ',' :: style.lineBreak depth ++ write style depth item ++ writeItems style depth rest

/-- The fields after the first one of a record. -/
def writeFields (style : Style) (depth : Nat) : List (String × Json Int) → List Char
  | [] => []
  | (name, value) :: rest =>
      ',' :: style.lineBreak depth ++ writeString name ++ ':' :: style.afterColon ++
        write style depth value ++ writeFields style depth rest

end

/-- A value in the compact style, its fields sorted by name. -/
def compactText (value : Json Int) : String :=
  String.ofList (write .compact 0 value.sortFields)

/-- A value in the spread style, its fields sorted by name, with a line feed at the end. -/
def spreadText (value : Json Int) : String :=
  String.ofList (write .spread 0 value.sortFields ++ ['\n'])

/-- A value in the style that is asked for. -/
def text (value : Json Int) (pretty : Bool) : String :=
  if pretty then value.spreadText else value.compactText

end WordAtlas.Json
