import Mathlib.Data.List.TakeWhile
import WordAtlas.Text.Blank
import WordAtlas.Text.Letters

/-!
# Blanks and case

Names and switches are read without the blanks around them and without regard to case.  Here both
are said in the terms of Unicode rather than of the reader.  The *core* of a text is what is left
when the white space at its ends is taken away; there is exactly one, and `strip` finds it
(`isCore_iff`).

A case mapping takes a character to a text.  All words of interest are ASCII, so only the characters
matter that are mapped to ASCII: the ASCII characters themselves, and a few letters and ligatures
that Unicode spells out.  Two mappings that agree with Unicode on these find the same texts spelled
(`IsCaseMapping.flatMap_eq_iff`), whatever they do with all other characters.  What is said of a
name or of a switch can therefore be said of every such mapping.
-/

namespace WordAtlas.Text

/-! ## Blanks -/

/-- The white space of Unicode: the ASCII controls from tab to carriage return and from file to unit
separator, the space, the next-line control, and the spaces and line separators beyond ASCII. -/
def whiteSpace : List Nat :=
  [0x09, 0x0A, 0x0B, 0x0C, 0x0D, 0x1C, 0x1D, 0x1E, 0x1F, 0x20, 0x85, 0xA0, 0x1680, 0x2000, 0x2001,
   0x2002, 0x2003, 0x2004, 0x2005, 0x2006, 0x2007, 0x2008, 0x2009, 0x200A, 0x2028, 0x2029, 0x202F,
   0x205F, 0x3000]

/-- The blanks are the white space of Unicode. -/
theorem isBlank_iff {c : Char} : isBlank c = true ↔ c.toNat ∈ whiteSpace := by
  have htabs : ∀ n, 9 ≤ n ∧ n ≤ 13 ↔ n = 0x09 ∨ n = 0x0A ∨ n = 0x0B ∨ n = 0x0C ∨ n = 0x0D := by
    omega
  have hspaces : ∀ n, 0x1C ≤ n ∧ n ≤ 0x20 ↔
      n = 0x1C ∨ n = 0x1D ∨ n = 0x1E ∨ n = 0x1F ∨ n = 0x20 := by
    omega
  simp only [isBlank, wideBlanks, whiteSpace, Bool.or_eq_true, Bool.and_eq_true, decide_eq_true_eq,
    beq_iff_eq, List.contains_iff_mem, List.mem_cons, List.not_mem_nil, or_false, htabs, hspaces,
    or_assoc]

/-- The characters that are no blanks are not white space. -/
theorem isBlank_eq_false_iff {c : Char} : isBlank c = false ↔ c.toNat ∉ whiteSpace := by
  rw [← Bool.not_eq_true, isBlank_iff]

/-- Trimming takes away what stands around a text that neither begins nor ends with a blank. -/
theorem trimBoth_framed {p : Char → Bool} {before core after : List Char}
    (hbefore : ∀ c ∈ before, p c = true) (hafter : ∀ c ∈ after, p c = true)
    (hhead : ∀ c ∈ core.head?, p c = false) (hlast : ∀ c ∈ core.getLast?, p c = false) :
    trimBoth p (before ++ core ++ after) = core := by
  rw [trimBoth, List.append_assoc, List.dropWhile_append_of_pos hbefore]
  cases core with
  | nil =>
      rw [List.nil_append, List.dropWhile_eq_nil_iff.mpr hafter]
      rfl
  | cons c rest =>
      have hc : p c = false := hhead c rfl
      have hback : (c :: rest).reverse.dropWhile p = (c :: rest).reverse := by
        rw [List.dropWhile_eq_self_iff]
        intro hpos
        rw [← List.head_eq_getElem (List.length_pos_iff.mp hpos), List.head_reverse, hlast _
          (List.getLast_mem_getLast? _)]
        exact Bool.false_ne_true
      rw [List.cons_append, List.dropWhile_cons_of_neg (by rw [hc]; exact Bool.false_ne_true),
        ← List.cons_append, List.reverse_append,
        List.dropWhile_append_of_pos (by simpa using hafter), hback, List.reverse_reverse]

/-- What is left of a text without the white space at its ends. -/
structure IsCore (cs core : List Char) : Prop where
  framed : ∃ before after, cs = before ++ core ++ after ∧
    (∀ c ∈ before, c.toNat ∈ whiteSpace) ∧ ∀ c ∈ after, c.toNat ∈ whiteSpace
  head : ∀ c ∈ core.head?, c.toNat ∉ whiteSpace
  last : ∀ c ∈ core.getLast?, c.toNat ∉ whiteSpace

/-- What is left behind dropped blanks does not begin with one. -/
theorem not_blank_of_mem_head? {cs : List Char} {c : Char}
    (hc : c ∈ (cs.dropWhile isBlank).head?) : c.toNat ∉ whiteSpace := by
  have hnot := List.head?_dropWhile_not isBlank cs
  rw [hc] at hnot
  exact isBlank_eq_false_iff.mp hnot

/-- Stripping a text leaves its core. -/
theorem isCore_strip (cs : List Char) : IsCore cs (strip cs) := by
  let inner := cs.dropWhile isBlank
  have hcore : (strip cs).reverse = inner.reverse.dropWhile isBlank := List.reverse_reverse _
  have hinner : inner = strip cs ++ (inner.reverse.takeWhile isBlank).reverse := by
    have hsplit := congrArg List.reverse (List.takeWhile_append_dropWhile
      (p := isBlank) (l := inner.reverse))
    rw [List.reverse_append, List.reverse_reverse] at hsplit
    exact hsplit.symm
  refine ⟨⟨cs.takeWhile isBlank, (inner.reverse.takeWhile isBlank).reverse, ?_, ?_, ?_⟩, ?_, ?_⟩
  · rw [List.append_assoc, ← hinner, List.takeWhile_append_dropWhile]
  · exact fun c hc => isBlank_iff.mp (List.mem_takeWhile_imp hc)
  · exact fun c hc => isBlank_iff.mp (List.mem_takeWhile_imp (List.mem_reverse.mp hc))
  · intro c hc
    apply @not_blank_of_mem_head? cs
    change c ∈ inner.head?
    rw [hinner, List.head?_append, hc]
    rfl
  · intro c hc
    rw [← List.head?_reverse, hcore] at hc
    exact not_blank_of_mem_head? hc

/-- A text has no other core. -/
theorem IsCore.eq_strip {cs core : List Char} (h : IsCore cs core) : core = strip cs := by
  obtain ⟨⟨before, after, rfl, hbefore, hafter⟩, hhead, hlast⟩ := h
  exact (trimBoth_framed (fun c hc => isBlank_iff.mpr (hbefore c hc))
    (fun c hc => isBlank_iff.mpr (hafter c hc))
    (fun c hc => isBlank_eq_false_iff.mpr (hhead c hc))
    (fun c hc => isBlank_eq_false_iff.mpr (hlast c hc))).symm

/-- **Stripping finds the core.** -/
theorem isCore_iff {cs core : List Char} : IsCore cs core ↔ core = strip cs := by
  constructor
  · exact IsCore.eq_strip
  · rintro rfl
    exact isCore_strip cs

/-! ## Case -/

/-- A mapping of case takes ASCII characters where `ascii` does, and the characters of a table to
their spellings, all of which are ASCII.  What it takes any other character to is not all ASCII. -/
structure IsCaseMapping (ascii : Char → Char) (spellings : List (Char × List Char))
    (image : Char → List Char) : Prop where
  ascii : ∀ {c : Char}, c.toNat < 128 → image c = [ascii c]
  spelling : ∀ {c : Char} {cs : List Char}, spellings.lookup c = some cs → image c = cs
  beyond : ∀ {c : Char}, ¬ c.toNat < 128 → spellings.lookup c = none →
    ∃ x ∈ image c, ¬ x.toNat < 128

namespace IsCaseMapping

variable {ascii : Char → Char} {spellings : List (Char × List Char)}
  {image other : Char → List Char}

/-- Two mappings agree on a character, or both take it beyond ASCII. -/
theorem eq_or_beyond (h : IsCaseMapping ascii spellings image)
    (hother : IsCaseMapping ascii spellings other) (c : Char) :
    image c = other c ∨ (∃ x ∈ image c, ¬ x.toNat < 128) ∧ ∃ x ∈ other c, ¬ x.toNat < 128 := by
  by_cases hc : c.toNat < 128
  · left
    rw [h.ascii hc, hother.ascii hc]
  · cases hlookup : spellings.lookup c with
    | some cs =>
        left
        rw [h.spelling hlookup, hother.spelling hlookup]
    | none => exact Or.inr ⟨h.beyond hc hlookup, hother.beyond hc hlookup⟩

/-- What is all ASCII is the image of the same texts under every mapping. -/
theorem flatMap_eq_of_ascii (h : IsCaseMapping ascii spellings image)
    (hother : IsCaseMapping ascii spellings other) {cs word : List Char}
    (hword : ∀ x ∈ word, x.toNat < 128) (heq : cs.flatMap image = word) :
    cs.flatMap other = word := by
  have hsame : ∀ c ∈ cs, image c = other c := by
    intro c hc
    rcases h.eq_or_beyond hother c with hsame | ⟨⟨x, hx, hbeyond⟩, -⟩
    · exact hsame
    · have hmem : x ∈ word := heq ▸ List.mem_flatMap.mpr ⟨c, hc, hx⟩
      exact absurd (hword x hmem) hbeyond
  rw [← heq, List.flatMap_def, List.flatMap_def, List.map_congr_left hsame]

/-- Whether a text is mapped to a word of ASCII characters does not depend on the mapping. -/
theorem flatMap_eq_iff (h : IsCaseMapping ascii spellings image)
    (hother : IsCaseMapping ascii spellings other) {cs word : List Char}
    (hword : ∀ x ∈ word, x.toNat < 128) :
    cs.flatMap image = word ↔ cs.flatMap other = word :=
  ⟨h.flatMap_eq_of_ascii hother hword, hother.flatMap_eq_of_ascii h hword⟩

end IsCaseMapping

/-- The characters beyond ASCII that Unicode puts into upper case as ASCII letters: the sharp s, the
dotless i, the long s, and the ligatures of f and of s. -/
def spelledCapitals : List (Char × List Char) :=
  [('\u00df', ['S', 'S']), ('\u0131', ['I']), ('\u017f', ['S']), ('\ufb00', ['F', 'F']),
   ('\ufb01', ['F', 'I']), ('\ufb02', ['F', 'L']), ('\ufb03', ['F', 'F', 'I']),
   ('\ufb04', ['F', 'F', 'L']), ('\ufb05', ['S', 'T']), ('\ufb06', ['S', 'T'])]

/-- A mapping to upper case takes ASCII letters to capitals and other characters to their spelling
in ASCII capitals, if they have one.  The full upper-casing of Unicode is of this kind. -/
abbrev IsUppering : (Char → List Char) → Prop :=
  IsCaseMapping Char.toUpper spelledCapitals

/-- Looking a character up in a table first, and otherwise mapping it by itself, is a mapping of
case where characters beyond ASCII are mapped to themselves. -/
theorem isCaseMapping_lookup {ascii : Char → Char} {spellings : List (Char × List Char)}
    (hplain : ∀ {c : Char}, c.toNat < 128 → spellings.lookup c = none)
    (hbeyond : ∀ {c : Char}, ¬ c.toNat < 128 → ascii c = c) :
    IsCaseMapping ascii spellings fun c => (spellings.lookup c).getD [ascii c] where
  ascii := fun hc => by rw [hplain hc, Option.getD_none]
  spelling := fun hc => by rw [hc, Option.getD_some]
  beyond := by
    intro c hc hnone
    rw [hnone, Option.getD_none, hbeyond hc]
    exact ⟨c, List.mem_singleton_self c, hc⟩

/-- To leave characters as they are that have no ASCII capitals is a mapping to upper case. -/
theorem isUppering_upperChar : IsUppering upperChar :=
  isCaseMapping_lookup
    (forall_ascii (p := fun c => spelledCapitals.lookup c = none) (by decide)) toUpper_of_not_ascii

end WordAtlas.Text
