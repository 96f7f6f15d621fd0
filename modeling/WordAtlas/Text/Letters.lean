/-!
# Spelling without regard to case

Names and switches are compared without regard to case, and under the full Unicode case mappings a
name can be spelled with letters beyond ASCII: the long s stands for an `S`, a ligature for the
letters that it joins.  Every name of interest is made of ASCII letters alone, so the two mappings
below list exactly the characters whose image is ASCII; any other character is left as it is, and
a text that holds one spells no name.
-/

namespace WordAtlas.Text

/-- The characters beyond ASCII whose upper-case form is made of ASCII letters. -/
def upperSpellings : List (Char × List Char) :=
  [('ß', ['S', 'S']), ('ı', ['I']), ('ſ', ['S']),
   ('ﬀ', ['F', 'F']), ('ﬁ', ['F', 'I']), ('ﬂ', ['F', 'L']), ('ﬃ', ['F', 'F', 'I']),
   ('ﬄ', ['F', 'F', 'L']), ('ﬅ', ['S', 'T']), ('ﬆ', ['S', 'T'])]

/-- The characters beyond ASCII whose case-folded form is made of ASCII letters. -/
def foldedSpellings : List (Char × List Char) :=
  [('ß', ['s', 's']), ('ſ', ['s']), ('ẞ', ['s', 's']), ('\u212a', ['k']),
   ('ﬀ', ['f', 'f']), ('ﬁ', ['f', 'i']), ('ﬂ', ['f', 'l']), ('ﬃ', ['f', 'f', 'i']),
   ('ﬄ', ['f', 'f', 'l']), ('ﬅ', ['s', 't']), ('ﬆ', ['s', 't'])]

/-- One character in upper case. -/
def upperChar (c : Char) : List Char :=
  (upperSpellings.lookup c).getD [c.toUpper]

/-- One character with its case folded away. -/
def foldChar (c : Char) : List Char :=
  (foldedSpellings.lookup c).getD [c.toLower]

/-- A text in upper case, as far as its letters have ASCII capitals. -/
def upper (cs : List Char) : List Char :=
  cs.flatMap upperChar

/-- A text with its case folded away, as far as its letters fold to ASCII. -/
def fold (cs : List Char) : List Char :=
  cs.flatMap foldChar

/-- What holds of every ASCII character can be tried on each of them. -/
theorem forall_ascii {p : Char → Prop} (h : ∀ n < 128, p (Char.ofNat n)) {c : Char}
    (hc : c.toNat < 128) : p c :=
  Char.ofNat_toNat c ▸ h c.toNat hc

/-- A character beyond ASCII has no ASCII capital. -/
theorem toUpper_of_not_ascii {c : Char} (hc : ¬ c.toNat < 128) : c.toUpper = c := by
  refine dif_neg fun hletter => hc ?_
  have hle : c.toNat ≤ 'z'.toNat := hletter.2
  exact Nat.lt_of_le_of_lt hle (by decide)

end WordAtlas.Text
