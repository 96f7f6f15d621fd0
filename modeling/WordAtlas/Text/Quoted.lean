import WordAtlas.Text.Hex
import WordAtlas.Text.Printable

/-!
# Quoted text

Messages show a piece of foreign text between quotes, so that blanks at its ends and characters
that cannot be printed stay visible.  The quotes are single, unless the text holds a single quote
and no double one.  Inside, the backslash and the quote in use are escaped by a backslash; line
feed, carriage return and tab have escapes of one letter; any other character that is not printable
is written by its code point in two, four or eight hexadecimal digits.
-/

namespace WordAtlas.Text.Quoted

/-- The quote that goes around a text. -/
def quoteFor (cs : List Char) : Char :=
  if cs.contains '\'' && !cs.contains '"' then '"' else '\''

/-- One character as it stands between the quotes `quote`. -/
def escape (quote c : Char) : List Char :=
  if c = quote ∨ c = '\\' then ['\\', c]
  else if c = '\n' then ['\\', 'n']
  else if c = '\r' then ['\\', 'r']
  else if c = '\t' then ['\\', 't']
  else if isPrintable c then [c]
  else if c.toNat < 0x100 then '\\' :: 'x' :: Hex.filled 2 c.toNat
  else if c.toNat < 0x10000 then '\\' :: 'u' :: Hex.filled 4 c.toNat
  else '\\' :: 'U' :: Hex.filled 8 c.toNat

/-- A text between quotes. -/
def quoted (cs : List Char) : List Char :=
  let quote := quoteFor cs
  quote :: cs.flatMap (escape quote) ++ [quote]

/-- A text between quotes. -/
def ofString (s : String) : String :=
  String.ofList (quoted s.toList)

end WordAtlas.Text.Quoted
