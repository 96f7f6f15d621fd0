/-!
# Blank characters

The characters that count as white space in free text are those that Unicode gives the white-space
bidirectional classes: the ASCII controls from tab to carriage return and from file to unit
separator, the space, the next-line control, and the spaces and line separators beyond ASCII.  The
zero-width space and the byte-order mark are not among them.  `strip` removes the blanks at both
ends of a text and nothing between them.
-/

namespace WordAtlas.Text

/-- The blanks beyond U+00FF. -/
def wideBlanks : List Nat :=
  [0x1680, 0x2000, 0x2001, 0x2002, 0x2003, 0x2004, 0x2005, 0x2006, 0x2007, 0x2008, 0x2009, 0x200A,
   0x2028, 0x2029, 0x202F, 0x205F, 0x3000]

/-- Whether a character is white space in free text. -/
def isBlank (c : Char) : Bool :=
  let n := c.toNat
  (9 ≤ n && n ≤ 13) || (0x1C ≤ n && n ≤ 0x20) || n == 0x85 || n == 0xA0 || wideBlanks.contains n

/-- Whether a character is white space within ASCII numerals: a space, or a control from tab to
carriage return.  The separators U+001C to U+001F are not. -/
def isPlainBlank (c : Char) : Bool :=
  c == ' ' || (9 ≤ c.toNat && c.toNat ≤ 13)

/-- Drops the characters that satisfy `p` from both ends. -/
def trimBoth (p : Char → Bool) (cs : List Char) : List Char :=
  ((cs.dropWhile p).reverse.dropWhile p).reverse

/-- A text without the blanks at its ends. -/
def strip (cs : List Char) : List Char :=
  trimBoth isBlank cs

/-- Every plain blank is a blank. -/
theorem isBlank_of_isPlainBlank {c : Char} (h : isPlainBlank c = true) : isBlank c = true := by
  simp only [isPlainBlank, isBlank, Bool.or_eq_true, Bool.and_eq_true, decide_eq_true_eq,
    beq_iff_eq] at h ⊢
  rcases h with rfl | h
  · exact Or.inl (Or.inl (Or.inl (Or.inr (by decide))))
  · exact Or.inl (Or.inl (Or.inl (Or.inl h)))

end WordAtlas.Text
