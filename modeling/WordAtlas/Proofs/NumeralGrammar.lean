import Mathlib.Data.List.Forall2
import Mathlib.Data.List.TakeWhile
import Mathlib.Data.Nat.Digits.Defs
import WordAtlas.Numeral
import WordAtlas.Text.Letters

/-!
# The grammar of numerals

Numerals are set apart by a grammar over the characters of the text itself: digits of a base with
single underscores between them (`Digits`), numerals without sign (`Unsigned`) and with one
(`Signed`), and blanks around them (`Spells`).  The reader first puts an ASCII character in the
place of each character, and what the grammar tells apart, these tell apart as well: blanks, digits
with their values, the marks of bases, signs and underscores (`isPlainBlank_of_plain?`,
`value?_of_plain?`, `eq_iff_of_plain?`).  So reading follows the grammar, one level after the other
(`digits?_eq_some_iff`, `unsigned?_eq_some_iff`, `signed?_eq_some_iff`, `value?_eq_some_iff`).
-/

namespace WordAtlas

namespace Numeral

/-! ## The grammar of numerals -/

/-- The values of the letters that are digits. -/
def letterDigits : List (Char × Nat) :=
  [('a', 10), ('b', 11), ('c', 12), ('d', 13), ('e', 14), ('f', 15),
   ('A', 10), ('B', 11), ('C', 12), ('D', 13), ('E', 14), ('F', 15)]

/-- The value of a digit: a decimal digit of any script, or a letter. -/
def digitValue? (c : Char) : Option Nat :=
  (Text.decimalValue? c).or (letterDigits.lookup c)

/-- Digits in a base, where single underscores may stand between neighbours. -/
inductive Digits (base : Nat) : List Nat → List Char → Prop
  | last {n : Nat} {c : Char} (hc : digitValue? c = some n) (hn : n < base) : Digits base [n] [c]
  | next {n : Nat} {c : Char} {ns : List Nat} {cs : List Char} (hc : digitValue? c = some n)
      (hn : n < base) (more : Digits base ns cs) : Digits base (n :: ns) (c :: cs)
  | spaced {n : Nat} {c : Char} {ns : List Nat} {cs : List Char} (hc : digitValue? c = some n)
      (hn : n < base) (more : Digits base ns cs) : Digits base (n :: ns) (c :: '_' :: cs)

/-- The letters that mark a base. -/
def marks : List (Char × Nat) :=
  [('x', 16), ('X', 16), ('o', 8), ('O', 8), ('b', 2), ('B', 2)]

/-- A numeral without sign: decimal digits, at most as many as there may be, the first of them no
zero unless all are; or a zero, the mark of a base, perhaps an underscore, and digits. -/
inductive Unsigned (n : Nat) : List Char → Prop
  | decimal {ns : List Nat} {cs : List Char} (hvalue : n = Nat.ofDigits 10 ns.reverse)
      (hcount : ns.length ≤ decimalLimit) (hzeros : ns.head? = some 0 → ∀ m ∈ ns, m = 0)
      (digits : Digits 10 ns cs) : Unsigned n cs
  | marked {base : Nat} {ns : List Nat} {zero mark : Char} {cs : List Char}
      (hvalue : n = Nat.ofDigits base ns.reverse) (hzero : Text.decimalValue? zero = some 0)
      (hmark : (mark, base) ∈ marks) (digits : Digits base ns cs) : Unsigned n (zero :: mark :: cs)
  | spaced {base : Nat} {ns : List Nat} {zero mark : Char} {cs : List Char}
      (hvalue : n = Nat.ofDigits base ns.reverse) (hzero : Text.decimalValue? zero = some 0)
      (hmark : (mark, base) ∈ marks) (digits : Digits base ns cs) :
      Unsigned n (zero :: mark :: '_' :: cs)

/-- A numeral with at most one sign. -/
inductive Signed : Int → List Char → Prop
  | plain {n : Nat} {cs : List Char} (h : Unsigned n cs) : Signed n cs
  | plus {n : Nat} {cs : List Char} (h : Unsigned n cs) : Signed n ('+' :: cs)
  | minus {n : Nat} {cs : List Char} (h : Unsigned n cs) : Signed (-(n : Int)) ('-' :: cs)

/-- The blanks that may stand around a numeral: the plain ones, and beyond ASCII all. -/
def isOuterBlank (c : Char) : Bool :=
  Text.isPlainBlank c || (128 ≤ c.toNat && Text.isBlank c)

/-! ## Characters and what they stand for -/

/-- Among the ASCII characters only the plain blanks may stand around a numeral. -/
theorem isOuterBlank_of_ascii {c : Char} (hc : c.toNat < 128) :
    isOuterBlank c = Text.isPlainBlank c := by
  have hlow : decide (128 ≤ c.toNat) = false := decide_eq_false (by omega)
  rw [isOuterBlank, hlow, Bool.false_and, Bool.or_false]

/-- Beyond ASCII every blank may stand around a numeral. -/
theorem isOuterBlank_of_not_ascii {c : Char} (hc : ¬ c.toNat < 128) :
    isOuterBlank c = Text.isBlank c := by
  have hspace : c ≠ ' ' := by
    rintro rfl
    exact hc (by decide)
  have hplain : Text.isPlainBlank c = false := by
    simp only [Text.isPlainBlank, beq_false_of_ne hspace, Bool.false_or, Bool.and_eq_false_iff,
      decide_eq_false_iff_not]
    omega
  have hhigh : decide (128 ≤ c.toNat) = true := decide_eq_true (by omega)
  rw [isOuterBlank, hplain, hhigh, Bool.true_and, Bool.false_or]

/-- The value of a decimal digit of ASCII. -/
def asciiDigit? (c : Char) : Option Nat :=
  if 0x30 ≤ c.toNat ∧ c.toNat ≤ 0x39 then some (c.toNat - 0x30) else none

/-- Among the ASCII characters only the ten digits of ASCII are decimal digits. -/
theorem decimalValue?_of_ascii {c : Char} (hc : c.toNat < 128) :
    Text.decimalValue? c = asciiDigit? c := by
  have hscripts : ∀ start ∈ Text.decimalZeros.tail, 128 ≤ start := by decide
  have hnone : Text.decimalZeros.tail.find? (fun start =>
      start ≤ c.toNat && c.toNat ≤ start + 9) = none := by
    refine List.find?_eq_none.mpr fun start hstart => ?_
    have hle := hscripts start hstart
    simp only [Bool.and_eq_true, decide_eq_true_eq]
    omega
  have hsplit : Text.decimalZeros = 0x30 :: Text.decimalZeros.tail := rfl
  rw [Text.decimalValue?, hsplit, List.find?_cons, hnone, asciiDigit?, ← Bool.decide_and]
  by_cases hdigit : 0x30 ≤ c.toNat ∧ c.toNat ≤ 0x39
  · rw [decide_eq_true hdigit, if_pos hdigit]
    rfl
  · rw [decide_eq_false hdigit, if_neg hdigit]
    rfl

/-- For ASCII characters the digits of the grammar are those that the reader knows. -/
theorem digitValue?_of_ascii {c : Char} (hc : c.toNat < 128) :
    digitValue? c = Text.Hex.value? c := by
  rw [digitValue?, decimalValue?_of_ascii hc]
  exact Text.forall_ascii
    (p := fun c => (asciiDigit? c).or (letterDigits.lookup c) = Text.Hex.value? c) (by decide) hc

/-- No blank is a decimal digit of any script. -/
theorem decimalValue?_of_isBlank {c : Char} (hc : ¬ c.toNat < 128) (h : Text.isBlank c = true) :
    Text.decimalValue? c = none := by
  have hlisted : c.toNat ∈ 0x85 :: 0xA0 :: Text.wideBlanks := by
    simp only [Text.isBlank, Bool.or_eq_true, Bool.and_eq_true, decide_eq_true_eq, beq_iff_eq,
      List.contains_iff_mem] at h
    rcases h with (((h | h) | h) | h) | h
    · omega
    · omega
    · simp [h]
    · simp [h]
    · simp [h]
  have hnone : ∀ n ∈ 0x85 :: 0xA0 :: Text.wideBlanks,
      Text.decimalZeros.find? (fun start => start ≤ n && n ≤ start + 9) = none := by
    decide
  rw [Text.decimalValue?, hnone _ hlisted]
  rfl

/-- No letter beyond ASCII is a digit. -/
theorem lookup_letterDigits_of_not_ascii {c : Char} (hc : ¬ c.toNat < 128) :
    letterDigits.lookup c = none := by
  have hascii : ∀ letter ∈ letterDigits, letter.1.toNat < 128 := by decide
  refine List.lookup_eq_none_iff.mpr fun letter hletter => ?_
  refine bne_iff_ne.mpr ?_
  rintro rfl
  exact hc (hascii letter hletter)

/-- A character that a numeral may hold is ASCII, or a blank, or a digit of another script. -/
theorem plain?_cases {c p : Char} (h : plain? c = some p) :
    (c.toNat < 128 ∧ p = c) ∨ (¬ c.toNat < 128 ∧ Text.isBlank c = true ∧ p = ' ') ∨
      (¬ c.toNat < 128 ∧ Text.isBlank c = false ∧
        ∃ n < 10, Text.decimalValue? c = some n ∧ p = Char.ofNat ('0'.toNat + n)) := by
  unfold plain? at h
  split at h
  · rename_i hascii
    cases h
    exact Or.inl ⟨hascii, rfl⟩
  · rename_i hascii
    split at h
    · rename_i hblank
      cases h
      exact Or.inr (Or.inl ⟨hascii, hblank, rfl⟩)
    · rename_i hblank
      obtain ⟨n, hn, rfl⟩ := Option.map_eq_some_iff.mp h
      exact Or.inr (Or.inr ⟨hascii, Bool.eq_false_of_not_eq_true hblank, n,
        Text.decimalValue?_lt hn, hn, rfl⟩)

/-- A character that is blank around a numeral stands for a blank, and no other one does. -/
theorem isPlainBlank_of_plain? {c p : Char} (h : plain? c = some p) :
    Text.isPlainBlank p = isOuterBlank c := by
  rcases plain?_cases h with ⟨hascii, rfl⟩ | ⟨hascii, hblank, rfl⟩ | ⟨hascii, hblank, n, hn, -, rfl⟩
  · exact (isOuterBlank_of_ascii hascii).symm
  · rw [isOuterBlank_of_not_ascii hascii, hblank]
    rfl
  · have hdigit : ∀ n < 10, Text.isPlainBlank (Char.ofNat ('0'.toNat + n)) = false := by decide
    rw [isOuterBlank_of_not_ascii hascii, hblank, hdigit n hn]

/-- A digit stands for an ASCII digit of its value. -/
theorem value?_of_plain? {c p : Char} (h : plain? c = some p) :
    Text.Hex.value? p = digitValue? c := by
  rcases plain?_cases h with ⟨hascii, rfl⟩ | ⟨hascii, hblank, rfl⟩ | ⟨-, -, n, hn, hvalue, rfl⟩
  · exact (digitValue?_of_ascii hascii).symm
  · rw [digitValue?, decimalValue?_of_isBlank hascii hblank,
      lookup_letterDigits_of_not_ascii hascii]
    rfl
  · have hdigit : ∀ n < 10, Text.Hex.value? (Char.ofNat ('0'.toNat + n)) = some n := by decide
    rw [digitValue?, hvalue, hdigit n hn]
    rfl

/-- The zeros of all scripts stand for the ASCII zero. -/
theorem eq_zero_iff_of_plain? {c p : Char} (h : plain? c = some p) :
    p = '0' ↔ Text.decimalValue? c = some 0 := by
  rcases plain?_cases h with ⟨hascii, rfl⟩ | ⟨hascii, hblank, rfl⟩ | ⟨-, -, n, hn, hvalue, rfl⟩
  · rw [decimalValue?_of_ascii hascii]
    exact Text.forall_ascii (p := fun c => c = '0' ↔ asciiDigit? c = some 0) (by decide) hascii
  · rw [decimalValue?_of_isBlank hascii hblank]
    decide
  · have hdigit : ∀ n < 10, Char.ofNat ('0'.toNat + n) = '0' ↔ n = 0 := by decide
    rw [hvalue, Option.some_inj, hdigit n hn]

/-- An ASCII character that is neither a digit nor a space is stood for by itself alone. -/
theorem eq_iff_of_plain? {c p mark : Char} (h : plain? c = some p) (hascii : mark.toNat < 128)
    (hspace : mark ≠ ' ') (hdigit : Text.decimalValue? mark = none) : p = mark ↔ c = mark := by
  constructor
  · rintro rfl
    rcases plain?_cases h with ⟨-, rfl⟩ | ⟨-, -, rfl⟩ | ⟨-, -, n, hn, -, rfl⟩
    · rfl
    · exact absurd rfl hspace
    · have hvalue : ∀ n < 10, Text.decimalValue? (Char.ofNat ('0'.toNat + n)) ≠ none := by decide
      exact absurd hdigit (hvalue n hn)
  · rintro rfl
    rw [plain?, if_pos hascii] at h
    exact (Option.some.inj h).symm

/-- Characters and what they stand for, one by one. -/
def StandFor (cs ps : List Char) : Prop :=
  List.Forall₂ (fun c p => plain? c = some p) cs ps

/-- A text has a plain form exactly if each of its characters has one. -/
theorem mapM_plain?_eq_some_iff {cs ps : List Char} :
    cs.mapM plain? = some ps ↔ StandFor cs ps := by
  constructor
  · intro h
    induction cs generalizing ps with
    | nil =>
        cases h
        exact .nil
    | cons c rest ih =>
        rw [List.mapM_cons] at h
        obtain ⟨p, hp, h⟩ := Option.bind_eq_some_iff.mp h
        obtain ⟨qs, hqs, h⟩ := Option.bind_eq_some_iff.mp h
        cases h
        exact .cons hp (ih hqs)
  · intro h
    induction h with
    | nil => rfl
    | cons hp _ ih =>
        rw [List.mapM_cons, hp, ih]
        rfl

/-- A text all of whose characters can be read has a plain form. -/
theorem exists_standFor {cs : List Char} (h : ∀ c ∈ cs, ∃ p, plain? c = some p) :
    ∃ ps, StandFor cs ps := by
  induction cs with
  | nil => exact ⟨[], .nil⟩
  | cons c rest ih =>
      obtain ⟨⟨p, hp⟩, hrest⟩ := List.forall_mem_cons.mp h
      obtain ⟨ps, hps⟩ := ih hrest
      exact ⟨p :: ps, .cons hp hps⟩

/-! ## Digits -/

/-- The reader finds a digit in the plain form exactly where the grammar finds one in the text. -/
theorem digit?_eq_some_iff {base n : Nat} {c p : Char} (h : plain? c = some p) :
    digit? base p = some n ↔ digitValue? c = some n ∧ n < base := by
  rw [digit?, value?_of_plain? h, Option.filter_eq_some_iff, decide_eq_true_iff]

/-- Digits do not begin with an underscore. -/
theorem digits?_underscore (base : Nat) (cs : List Char) : digits? base ('_' :: cs) = none := by
  rw [digits?, Text.pieces, if_pos rfl]
  rfl

/-- A single character is read as digits if it is a digit. -/
theorem digits?_singleton (base : Nat) {c : Char} (hc : c ≠ '_') :
    digits? base [c] = (digit? base c).map fun n => [n] := by
  rw [digits?, Text.pieces, if_neg hc]
  cases h : digit? base c <;> simp [Text.pieces, h]

/-- An underscore behind a digit is passed over, and digits have to follow it. -/
theorem digits?_spaced (base : Nat) {c : Char} (hc : c ≠ '_') (cs : List Char) :
    digits? base (c :: '_' :: cs) =
      (digit? base c).bind fun n => (digits? base cs).map (n :: ·) := by
  have hpieces : Text.pieces '_' (c :: '_' :: cs) = [c] :: Text.pieces '_' cs := by
    rw [Text.pieces, if_neg hc, Text.pieces, if_pos rfl]
  simp only [digits?, hpieces, List.any_cons, List.isEmpty_cons, Bool.false_or, List.flatten_cons]
  split
  · simp
  · simp only [List.cons_append, List.nil_append, List.mapM_cons]
    cases digit? base c with
    | none => rfl
    | some n => cases (Text.pieces '_' cs).flatten.mapM (digit? base) <;> rfl

/-- Without an underscore behind it, a digit is read and the digits behind it go on. -/
theorem digits?_next (base : Nat) {c d : Char} (hc : c ≠ '_') (hd : d ≠ '_') (cs : List Char) :
    digits? base (c :: d :: cs) =
      (digit? base c).bind fun n => (digits? base (d :: cs)).map (n :: ·) := by
  obtain ⟨piece, more, hrest⟩ : ∃ piece more, Text.pieces '_' (d :: cs) = (d :: piece) :: more := by
    rw [Text.pieces, if_neg hd]
    cases Text.pieces '_' cs with
    | nil => exact ⟨_, _, rfl⟩
    | cons piece more => exact ⟨_, _, rfl⟩
  have hpieces : Text.pieces '_' (c :: d :: cs) = (c :: d :: piece) :: more := by
    rw [Text.pieces, if_neg hc, hrest]
  simp only [digits?, hpieces, hrest, List.any_cons, List.isEmpty_cons, Bool.false_or,
    List.flatten_cons, List.cons_append, List.mapM_cons]
  split
  · simp
  · cases digit? base c <;> cases digit? base d <;>
      cases (piece ++ more.flatten).mapM (digit? base) <;> rfl

/-- The underscore is no digit. -/
theorem digitValue?_underscore : digitValue? '_' = none := by
  decide

/-- What some digits begin with is a digit, and its value is the first of theirs. -/
theorem Digits.head {base : Nat} {ns : List Nat} {c : Char} {cs : List Char}
    (h : Digits base ns (c :: cs)) :
    ∃ n, ns.head? = some n ∧ digitValue? c = some n ∧ n < base := by
  cases h with
  | last hc hn => exact ⟨_, rfl, hc, hn⟩
  | next hc hn _ => exact ⟨_, rfl, hc, hn⟩
  | spaced hc hn _ => exact ⟨_, rfl, hc, hn⟩

/-- In the grammar, too, digits do not begin with an underscore. -/
theorem not_digits_underscore {base : Nat} {ns : List Nat} {cs : List Char} :
    ¬ Digits base ns ('_' :: cs) := by
  intro h
  obtain ⟨n, -, hn, -⟩ := h.head
  rw [digitValue?_underscore] at hn
  cases hn

/-- A single character stands for digits exactly if it is one digit of the base. -/
theorem digits_singleton_iff {base : Nat} {ns : List Nat} {c : Char} :
    Digits base ns [c] ↔ ∃ n, (digitValue? c = some n ∧ n < base) ∧ [n] = ns := by
  constructor
  · intro h
    cases h with
    | last hc hn => exact ⟨_, ⟨hc, hn⟩, rfl⟩
    | next _ _ more => nomatch more
  · rintro ⟨n, ⟨hc, hn⟩, rfl⟩
    exact .last hc hn

/-- In front of an underscore stands one digit, and behind it stand the others. -/
theorem digits_spaced_iff {base : Nat} {ns : List Nat} {c : Char} {cs : List Char} :
    Digits base ns (c :: '_' :: cs) ↔
      ∃ n, (digitValue? c = some n ∧ n < base) ∧ ∃ more, Digits base more cs ∧ n :: more = ns := by
  constructor
  · intro h
    cases h with
    | next _ _ more => exact absurd more not_digits_underscore
    | spaced hc hn more => exact ⟨_, ⟨hc, hn⟩, _, more, rfl⟩
  · rintro ⟨n, ⟨hc, hn⟩, more, hmore, rfl⟩
    exact .spaced hc hn hmore

/-- Where no underscore follows, the digits go on with the next character. -/
theorem digits_next_iff {base : Nat} {ns : List Nat} {c d : Char} {cs : List Char} (hd : d ≠ '_') :
    Digits base ns (c :: d :: cs) ↔
      ∃ n, (digitValue? c = some n ∧ n < base) ∧
        ∃ more, Digits base more (d :: cs) ∧ n :: more = ns := by
  constructor
  · intro h
    cases h with
    | next hc hn more => exact ⟨_, ⟨hc, hn⟩, _, more, rfl⟩
    | spaced => exact absurd rfl hd
  · rintro ⟨n, ⟨hc, hn⟩, more, hmore, rfl⟩
    exact .next hc hn hmore

/-- The reader takes digits apart as the grammar does. -/
theorem digits?_eq_some_iff (base : Nat) {ns : List Nat} :
    ∀ {cs ps : List Char}, StandFor cs ps → (digits? base ps = some ns ↔ Digits base ns cs)
  | _, _, .nil => by
      refine iff_of_false ?_ nofun
      exact nofun
  | c :: _, p :: _, .cons hp rest => by
      -- whether an underscore follows the first digit decides where the others begin
      have hunder : p = '_' ↔ c = '_' := eq_iff_of_plain? hp (by decide) (by decide) (by decide)
      by_cases hmark : p = '_'
      · rw [hmark, hunder.mp hmark, digits?_underscore]
        exact iff_of_false nofun not_digits_underscore
      · cases rest with
        | nil =>
            simp only [digits?_singleton base hmark, digits_singleton_iff, Option.map_eq_some_iff,
              digit?_eq_some_iff hp]
        | @cons d q cs ps hq rest =>
            have hunder' : q = '_' ↔ d = '_' :=
              eq_iff_of_plain? hq (by decide) (by decide) (by decide)
            by_cases hmark' : q = '_'
            · rw [hmark', hunder'.mp hmark', digits?_spaced base hmark, digits_spaced_iff]
              simp only [Option.bind_eq_some_iff, Option.map_eq_some_iff, digit?_eq_some_iff hp,
                digits?_eq_some_iff base rest]
            · rw [digits?_next base hmark hmark', digits_next_iff (mt hunder'.mpr hmark')]
              simp only [Option.bind_eq_some_iff, Option.map_eq_some_iff, digit?_eq_some_iff hp,
                digits?_eq_some_iff base (.cons hq rest)]

/-! ## Values -/

/-- What the reader adds up from the left is the number with these digits. -/
theorem valueOf_eq_ofDigits (base : Nat) (ns : List Nat) :
    valueOf base ns = Nat.ofDigits base ns.reverse := by
  have hstep : (fun n digit : Nat => base * n + digit) = fun n digit => digit + base * n :=
    funext₂ fun _ _ => Nat.add_comm _ _
  rw [Nat.ofDigits_eq_foldr, ← List.foldl_eq_foldr_reverse, valueOf, hstep]
  rfl

/-- A decimal number is zero exactly if all its digits are. -/
theorem ofDigits_reverse_eq_zero_iff {ns : List Nat} :
    Nat.ofDigits 10 ns.reverse = 0 ↔ ∀ n ∈ ns, n = 0 := by
  constructor
  · intro h n hn
    exact Nat.digits_zero_of_eq_zero (by decide) h n (List.mem_reverse.mpr hn)
  · intro h
    rw [List.eq_replicate_of_mem h, List.reverse_replicate, Nat.ofDigits_replicate_zero]

/-- Only decimal digits have the value zero. -/
theorem digitValue?_eq_zero_iff {c : Char} :
    digitValue? c = some 0 ↔ Text.decimalValue? c = some 0 := by
  have hletter : letterDigits.lookup c ≠ some 0 := fun h => by
    obtain ⟨before, after, hsplit, -⟩ := List.lookup_eq_some_iff.mp h
    have hmem : (c, 0) ∈ letterDigits := by simp [hsplit]
    have hnone : ∀ letter ∈ letterDigits, letter.2 ≠ 0 := by decide
    exact hnone _ hmem rfl
  rw [digitValue?]
  cases Text.decimalValue? c with
  | none => simp [hletter]
  | some n => rfl

/-- The plain form begins with a zero exactly if the first digit of the text is zero. -/
theorem head?_eq_zero_iff {ns : List Nat} {cs ps : List Char} (h : StandFor cs ps)
    (hdigits : Digits 10 ns cs) : ps.head? = some '0' ↔ ns.head? = some 0 := by
  cases h with
  | nil => nomatch hdigits
  | cons hp _ =>
      obtain ⟨n, hhead, hn, -⟩ := hdigits.head
      rw [List.head?_cons, Option.some_inj, eq_zero_iff_of_plain? hp, ← digitValue?_eq_zero_iff,
        hn, hhead]

/-! ## Numerals without sign -/

/-- The reader of decimal numerals finds what the grammar says of them: no more digits than there
may be, and a leading zero only in front of zeros. -/
theorem decimal?_eq_some_iff {v : Nat} {cs ps : List Char} (h : StandFor cs ps) :
    decimal? ps = some v ↔ ∃ ns, Digits 10 ns cs ∧ ns.length ≤ decimalLimit ∧
      (ns.head? = some 0 → ∀ n ∈ ns, n = 0) ∧ v = Nat.ofDigits 10 ns.reverse := by
  have hdigits : ∀ ns, digits? 10 ps = some ns ↔ Digits 10 ns cs :=
    fun ns => digits?_eq_some_iff 10 h
  unfold decimal?
  cases hfound : digits? 10 ps with
  | none =>
      have hno : ∀ ns, ¬ Digits 10 ns cs := fun ns hns => by
        rw [← hdigits, hfound] at hns
        cases hns
      simp [hno]
  | some ns =>
      have hns := (hdigits ns).mp hfound
      have honly : ∀ others, Digits 10 others cs ↔ others = ns := fun others => by
        rw [← hdigits, hfound, Option.some_inj, eq_comm]
      have hhead := head?_eq_zero_iff h hns
      simp only [honly, exists_eq_left, ← hhead, ← ofDigits_reverse_eq_zero_iff, valueOf_eq_ofDigits,
        Option.bind_eq_bind, Option.bind_some]
      split
      · rename_i hlong
        exact iff_of_false nofun fun hv => Nat.not_lt.mpr hv.1 hlong
      · rename_i hshort
        simp only [Bool.and_eq_true, beq_iff_eq, bne_iff_ne]
        split
        · rename_i hzero
          exact iff_of_false nofun fun hv => hzero.2 (hv.2.1 hzero.1)
        · rename_i hzero
          rw [not_and_not_right] at hzero
          constructor
          · intro hv
            exact ⟨Nat.le_of_not_lt hshort, hzero, (Option.some.inj hv).symm⟩
          · rintro ⟨-, -, rfl⟩
            rfl

/-- Behind a zero and the mark of a base, the digits are read in that base. -/
theorem unsigned?_marked {base : Nat} {mark : Char} (h : (mark, base) ∈ marks) (rest : List Char) :
    unsigned? ('0' :: mark :: rest) = marked? base rest := by
  simp only [marks, List.mem_cons, Prod.mk.injEq, List.not_mem_nil, or_false] at h
  rcases h with ⟨rfl, rfl⟩ | ⟨rfl, rfl⟩ | ⟨rfl, rfl⟩ | ⟨rfl, rfl⟩ | ⟨rfl, rfl⟩ | ⟨rfl, rfl⟩ <;> rfl

/-- A text without a mark behind a leading zero is read as a decimal numeral. -/
theorem unsigned?_of_not_marked {ps : List Char}
    (h : ∀ mark base rest, (mark, base) ∈ marks → ps ≠ '0' :: mark :: rest) :
    unsigned? ps = decimal? ps := by
  unfold unsigned?
  split
  · rename_i mark rest
    have hno : ∀ other base, (other, base) ∈ marks → mark ≠ other := by
      rintro other base hmem rfl
      exact h _ base rest hmem rfl
    have hx := hno 'x' 16 (by decide)
    have hX := hno 'X' 16 (by decide)
    have ho := hno 'o' 8 (by decide)
    have hO := hno 'O' 8 (by decide)
    have hb := hno 'b' 2 (by decide)
    have hB := hno 'B' 2 (by decide)
    simp [*]
  · rfl

/-- The reader of what follows a mark finds digits of the base, perhaps behind one underscore. -/
theorem marked?_eq_some_iff {base v : Nat} {cs ps : List Char} (h : StandFor cs ps) :
    marked? base ps = some v ↔ ∃ ns, v = Nat.ofDigits base ns.reverse ∧
      (Digits base ns cs ∨ ∃ rest, cs = '_' :: rest ∧ Digits base ns rest) := by
  have hvalue : ∀ {cs ps}, StandFor cs ps → ((digits? base ps).map (valueOf base) = some v ↔
      ∃ ns, v = Nat.ofDigits base ns.reverse ∧ Digits base ns cs) := fun h => by
    simp only [Option.map_eq_some_iff, digits?_eq_some_iff base h, valueOf_eq_ofDigits, and_comm,
      @eq_comm _ v]
  cases h with
  | nil =>
      have hempty := hvalue List.Forall₂.nil
      simpa [marked?] using hempty
  | @cons c p cs ps hp rest =>
      have hunder : p = '_' ↔ c = '_' := eq_iff_of_plain? hp (by decide) (by decide) (by decide)
      by_cases hmark : p = '_'
      · obtain rfl := hunder.mp hmark
        subst hmark
        simpa [marked?, not_digits_underscore] using hvalue rest
      · have hno : c ≠ '_' := mt hunder.mpr hmark
        simpa [marked?, hmark, hno] using hvalue (.cons hp rest)

/-- The mark of a base is no underscore and no decimal digit. -/
theorem digitValue?_of_mem_marks {mark : Char} {base : Nat} (h : (mark, base) ∈ marks) :
    mark ≠ '_' ∧ ∀ n, digitValue? mark = some n → 10 ≤ n := by
  have hall : ∀ m ∈ marks, m.1 ≠ '_' ∧ ∀ n ∈ digitValue? m.1, 10 ≤ n := by decide
  exact hall _ h

/-- A zero and a mark are not the beginning of a decimal numeral. -/
theorem not_digits_marked {ns : List Nat} {zero mark : Char} {base : Nat} {cs : List Char}
    (hmark : (mark, base) ∈ marks) : ¬ Digits 10 ns (zero :: mark :: cs) := by
  obtain ⟨hunder, hlarge⟩ := digitValue?_of_mem_marks hmark
  intro h
  obtain ⟨-, -, more, hmore, -⟩ := (digits_next_iff hunder).mp h
  obtain ⟨n, -, hn, hlt⟩ := hmore.head
  have hge := hlarge n hn
  omega

/-- Every mark stands for one base. -/
theorem base_eq_of_mem_marks {mark : Char} {base other : Nat} (h : (mark, base) ∈ marks)
    (hother : (mark, other) ∈ marks) : base = other := by
  have hall : ∀ m ∈ marks, ∀ o ∈ marks, m.1 = o.1 → m.2 = o.2 := by decide
  exact hall _ h _ hother rfl

/-- In the grammar, what begins with a zero and a mark is a numeral of the marked base. -/
theorem unsigned_marked_iff {v base : Nat} {zero mark : Char} {cs : List Char}
    (hzero : Text.decimalValue? zero = some 0) (hmark : (mark, base) ∈ marks) :
    Unsigned v (zero :: mark :: cs) ↔ ∃ ns, v = Nat.ofDigits base ns.reverse ∧
      (Digits base ns cs ∨ ∃ rest, cs = '_' :: rest ∧ Digits base ns rest) := by
  constructor
  · intro h
    cases h with
    | decimal _ _ _ digits => exact absurd digits (not_digits_marked hmark)
    | marked hvalue _ hmark' digits =>
        obtain rfl := base_eq_of_mem_marks hmark hmark'
        exact ⟨_, hvalue, Or.inl digits⟩
    | spaced hvalue _ hmark' digits =>
        obtain rfl := base_eq_of_mem_marks hmark hmark'
        exact ⟨_, hvalue, Or.inr ⟨_, rfl, digits⟩⟩
  · rintro ⟨ns, hvalue, digits | ⟨rest, rfl, digits⟩⟩
    · exact .marked hvalue hzero hmark digits
    · exact .spaced hvalue hzero hmark digits

/-- In the grammar, what does not begin with a zero and a mark is a decimal numeral. -/
theorem unsigned_decimal_iff {v : Nat} {cs : List Char}
    (h : ∀ zero mark base rest, Text.decimalValue? zero = some 0 → (mark, base) ∈ marks →
      cs ≠ zero :: mark :: rest) :
    Unsigned v cs ↔ ∃ ns, Digits 10 ns cs ∧ ns.length ≤ decimalLimit ∧
      (ns.head? = some 0 → ∀ n ∈ ns, n = 0) ∧ v = Nat.ofDigits 10 ns.reverse := by
  constructor
  · intro hv
    cases hv with
    | decimal hvalue hcount hzeros digits => exact ⟨_, digits, hcount, hzeros, hvalue⟩
    | marked _ hzero hmark _ => exact absurd rfl (h _ _ _ _ hzero hmark)
    | spaced _ hzero hmark _ => exact absurd rfl (h _ _ _ _ hzero hmark)
  · rintro ⟨ns, digits, hcount, hzeros, hvalue⟩
    exact .decimal hvalue hcount hzeros digits

/-- A character is a mark exactly if its plain form is. -/
theorem eq_mark_iff_of_plain? {c p mark : Char} {base : Nat} (h : plain? c = some p)
    (hmark : (mark, base) ∈ marks) : p = mark ↔ c = mark := by
  have hall : ∀ m ∈ marks, m.1.toNat < 128 ∧ m.1 ≠ ' ' ∧ Text.decimalValue? m.1 = none := by decide
  obtain ⟨hascii, hspace, hdigit⟩ := hall _ hmark
  exact eq_iff_of_plain? h hascii hspace hdigit

/-- The reader takes a numeral without sign apart as the grammar does. -/
theorem unsigned?_eq_some_iff {v : Nat} {cs ps : List Char} (h : StandFor cs ps) :
    unsigned? ps = some v ↔ Unsigned v cs := by
  -- no numeral is of both sorts: a mark is no decimal digit, so it cannot follow a decimal zero
  by_cases hmarked : ∃ mark base rest, (mark, base) ∈ marks ∧ ps = '0' :: mark :: rest
  · obtain ⟨mark, base, rest, hmark, rfl⟩ := hmarked
    obtain ⟨zero, others, hzero, hothers, rfl⟩ := List.forall₂_cons_right_iff.mp h
    obtain ⟨c, cs, hc, hcs, rfl⟩ := List.forall₂_cons_right_iff.mp hothers
    obtain rfl := (eq_mark_iff_of_plain? hc hmark).mp rfl
    rw [unsigned?_marked hmark, marked?_eq_some_iff hcs,
      unsigned_marked_iff ((eq_zero_iff_of_plain? hzero).mp rfl) hmark]
  · rw [unsigned?_of_not_marked fun mark base rest hmark heq =>
        hmarked ⟨mark, base, rest, hmark, heq⟩, decimal?_eq_some_iff h, unsigned_decimal_iff]
    rintro zero mark base rest hzero hmark rfl
    obtain ⟨p, ps, hp, hps, rfl⟩ := List.forall₂_cons_left_iff.mp h
    obtain ⟨q, ps, hq, hps, rfl⟩ := List.forall₂_cons_left_iff.mp hps
    refine hmarked ⟨mark, base, ps, hmark, ?_⟩
    rw [(eq_zero_iff_of_plain? hp).mpr hzero, (eq_mark_iff_of_plain? hq hmark).mpr rfl]

/-! ## Numerals with a sign and blanks around them -/

/-- Digits do not begin with a character that is no digit. -/
theorem Digits.head_ne {base : Nat} {ns : List Nat} {c sign : Char} {cs : List Char}
    (h : Digits base ns (c :: cs)) (hsign : digitValue? sign = none) : c ≠ sign := by
  obtain ⟨n, -, hn, -⟩ := h.head
  rintro rfl
  rw [hsign] at hn
  cases hn

/-- A numeral without sign does not begin with one. -/
theorem not_unsigned_sign {v : Nat} {sign : Char} {cs : List Char}
    (hsign : digitValue? sign = none) : ¬ Unsigned v (sign :: cs) := by
  intro h
  have hnozero : Text.decimalValue? sign ≠ some 0 := fun hzero => by
    rw [← digitValue?_eq_zero_iff, hsign] at hzero
    cases hzero
  cases h with
  | decimal _ _ _ digits => exact digits.head_ne hsign rfl
  | marked _ hzero => exact hnozero hzero
  | spaced _ hzero => exact hnozero hzero

/-- Behind a plus sign stands the numeral itself. -/
theorem signed_plus_iff {z : Int} {cs : List Char} :
    Signed z ('+' :: cs) ↔ ∃ n : Nat, Unsigned n cs ∧ (n : Int) = z := by
  constructor
  · intro h
    cases h with
    | plain h => exact absurd h (not_unsigned_sign (by decide))
    | plus h => exact ⟨_, h, rfl⟩
  · rintro ⟨n, hn, rfl⟩
    exact .plus hn

/-- Behind a minus sign stands the numeral of the opposite number. -/
theorem signed_minus_iff {z : Int} {cs : List Char} :
    Signed z ('-' :: cs) ↔ ∃ n : Nat, Unsigned n cs ∧ -(n : Int) = z := by
  constructor
  · intro h
    cases h with
    | plain h => exact absurd h (not_unsigned_sign (by decide))
    | minus h => exact ⟨_, h, rfl⟩
  · rintro ⟨n, hn, rfl⟩
    exact .minus hn

/-- What begins with no sign is a numeral without sign. -/
theorem signed_plain_iff {z : Int} {cs : List Char} (hplus : ∀ rest, cs ≠ '+' :: rest)
    (hminus : ∀ rest, cs ≠ '-' :: rest) :
    Signed z cs ↔ ∃ n : Nat, Unsigned n cs ∧ (n : Int) = z := by
  constructor
  · intro h
    cases h with
    | plain h => exact ⟨_, h, rfl⟩
    | plus h => exact absurd rfl (hplus _)
    | minus h => exact absurd rfl (hminus _)
  · rintro ⟨n, hn, rfl⟩
    exact .plain hn

/-- The reader takes a numeral with a sign apart as the grammar does. -/
theorem signed?_eq_some_iff {z : Int} {cs ps : List Char} (h : StandFor cs ps) :
    signed? ps = some z ↔ Signed z cs := by
  unfold signed?
  split
  · obtain ⟨c, cs, hc, hcs, rfl⟩ := List.forall₂_cons_right_iff.mp h
    obtain rfl := (eq_iff_of_plain? hc (by decide) (by decide) (by decide)).mp rfl
    simp only [signed_minus_iff, Option.map_eq_some_iff, Option.bind_eq_bind,
      Option.bind_eq_some_iff, Option.pure_def, Option.some_inj, exists_exists_and_eq_and,
      unsigned?_eq_some_iff hcs]
  · obtain ⟨c, cs, hc, hcs, rfl⟩ := List.forall₂_cons_right_iff.mp h
    obtain rfl := (eq_iff_of_plain? hc (by decide) (by decide) (by decide)).mp rfl
    simp only [signed_plus_iff, Option.map_eq_some_iff, unsigned?_eq_some_iff hcs,
      Int.ofNat_eq_natCast]
  · rename_i hminus hplus
    have hfirst : ∀ (sign : Char) (rest : List Char), sign.toNat < 128 → sign ≠ ' ' →
        Text.decimalValue? sign = none → (∀ rest, ps ≠ sign :: rest) → cs ≠ sign :: rest := by
      rintro sign rest hascii hspace hdigit hno rfl
      obtain ⟨p, ps, hp, hps, rfl⟩ := List.forall₂_cons_left_iff.mp h
      exact hno ps (by rw [(eq_iff_of_plain? hp hascii hspace hdigit).mpr rfl])
    rw [signed_plain_iff
      (fun rest => hfirst '+' rest (by decide) (by decide) (by decide) hplus)
      (fun rest => hfirst '-' rest (by decide) (by decide) (by decide) hminus)]
    simp only [Option.map_eq_some_iff, unsigned?_eq_some_iff h, Int.ofNat_eq_natCast]

/-- Characters that are told apart alike can be left off the beginnings of both texts. -/
theorem StandFor.dropWhile {p q : Char → Bool} {cs ps : List Char} (h : StandFor cs ps)
    (hpq : ∀ c d, plain? c = some d → q d = p c) :
    StandFor (cs.dropWhile p) (ps.dropWhile q) := by
  induction h with
  | nil => exact .nil
  | @cons c d cs ps hd rest ih =>
      rw [List.dropWhile_cons, List.dropWhile_cons, hpq c d hd]
      split
      · exact ih
      · exact .cons hd rest

/-- Characters that are told apart alike can be left off both ends of both texts. -/
theorem StandFor.trimBoth {p q : Char → Bool} {cs ps : List Char} (h : StandFor cs ps)
    (hpq : ∀ c d, plain? c = some d → q d = p c) :
    StandFor (Text.trimBoth p cs) (Text.trimBoth q ps) := by
  have hfront : StandFor (cs.dropWhile p) (ps.dropWhile q) := h.dropWhile hpq
  have hback := StandFor.dropWhile (List.rel_reverse hfront) hpq
  exact List.rel_reverse hback

/-- What is not left off at the beginning stays. -/
theorem mem_dropWhile_of_mem {p : Char → Bool} {c : Char} {cs : List Char} (hc : c ∈ cs)
    (hp : p c = false) : c ∈ cs.dropWhile p := by
  rw [← List.takeWhile_append_dropWhile (p := p) (l := cs), List.mem_append] at hc
  rcases hc with hc | hc
  · rw [List.mem_takeWhile_imp hc] at hp
    cases hp
  · exact hc

/-- What is not left off at the ends stays. -/
theorem mem_trimBoth_of_mem {p : Char → Bool} {c : Char} {cs : List Char} (hc : c ∈ cs)
    (hp : p c = false) : c ∈ Text.trimBoth p cs := by
  have hfront := mem_dropWhile_of_mem hc hp
  have hback := mem_dropWhile_of_mem (List.mem_reverse.mpr hfront) hp
  exact List.mem_reverse.mpr hback

/-- A character that can stand within a numeral. -/
def Inner (c : Char) : Prop :=
  isOuterBlank c = false ∧ ∃ p, plain? c = some p

/-- Every blank that may stand around a numeral can be read. -/
theorem exists_plain?_of_isOuterBlank {c : Char} (h : isOuterBlank c = true) :
    ∃ p, plain? c = some p := by
  by_cases hascii : c.toNat < 128
  · exact ⟨c, if_pos hascii⟩
  · rw [isOuterBlank_of_not_ascii hascii] at h
    exact ⟨' ', by rw [plain?, if_neg hascii, if_pos h]⟩

/-- An ASCII character other than a plain blank can stand inside a numeral. -/
theorem inner_of_ascii {c : Char} (hascii : c.toNat < 128) (hblank : Text.isPlainBlank c = false) :
    Inner c :=
  ⟨(isOuterBlank_of_ascii hascii).trans hblank, c, if_pos hascii⟩

/-- A digit can stand inside a numeral. -/
theorem inner_of_digitValue? {c : Char} {n : Nat} (h : digitValue? c = some n) : Inner c := by
  by_cases hascii : c.toNat < 128
  · have hblank : Text.Hex.value? c = none ∨ Text.isPlainBlank c = false :=
      Text.forall_ascii (p := fun c => Text.Hex.value? c = none ∨ Text.isPlainBlank c = false)
        (by decide) hascii
    rcases hblank with hnone | hblank
    · rw [digitValue?_of_ascii hascii, hnone] at h
      cases h
    · exact inner_of_ascii hascii hblank
  · rw [digitValue?, lookup_letterDigits_of_not_ascii hascii, Option.or_none] at h
    have hblank : Text.isBlank c = false := Bool.eq_false_iff.mpr fun hblank => by
      rw [decimalValue?_of_isBlank hascii hblank] at h
      cases h
    refine ⟨(isOuterBlank_of_not_ascii hascii).trans hblank, Char.ofNat ('0'.toNat + n), ?_⟩
    rw [plain?, if_neg hascii, hblank, h]
    rfl

/-- An underscore can stand inside a numeral. -/
theorem inner_underscore : Inner '_' :=
  inner_of_ascii (by decide) (by decide)

/-- All characters of digits can stand inside a numeral. -/
theorem Digits.inner {base : Nat} {ns : List Nat} {cs : List Char} (h : Digits base ns cs) :
    ∀ c ∈ cs, Inner c := by
  induction h with
  | last hc _ => exact List.forall_mem_singleton.mpr (inner_of_digitValue? hc)
  | next hc _ _ ih => exact List.forall_mem_cons.mpr ⟨inner_of_digitValue? hc, ih⟩
  | spaced hc _ _ ih =>
      exact List.forall_mem_cons.mpr
        ⟨inner_of_digitValue? hc, List.forall_mem_cons.mpr ⟨inner_underscore, ih⟩⟩

/-- All characters of a numeral without sign can stand inside a numeral. -/
theorem Unsigned.inner {v : Nat} {cs : List Char} (h : Unsigned v cs) : ∀ c ∈ cs, Inner c := by
  have hprefix : ∀ {zero mark : Char} {base : Nat} {rest : List Char},
      Text.decimalValue? zero = some 0 → (mark, base) ∈ marks → (∀ c ∈ rest, Inner c) →
      ∀ c ∈ zero :: mark :: rest, Inner c := fun hzero hmark hrest => by
    have hall : ∀ m ∈ marks, m.1.toNat < 128 ∧ Text.isPlainBlank m.1 = false := by decide
    have hinner := inner_of_ascii (hall _ hmark).1 (hall _ hmark).2
    exact List.forall_mem_cons.mpr ⟨inner_of_digitValue? (digitValue?_eq_zero_iff.mpr hzero),
      List.forall_mem_cons.mpr ⟨hinner, hrest⟩⟩
  cases h with
  | decimal _ _ _ digits => exact digits.inner
  | marked _ hzero hmark digits => exact hprefix hzero hmark digits.inner
  | spaced _ hzero hmark digits =>
      exact hprefix hzero hmark (List.forall_mem_cons.mpr ⟨inner_underscore, digits.inner⟩)

/-- All characters of a numeral can stand inside one, so none of them is a blank. -/
theorem Signed.inner {z : Int} {cs : List Char} (h : Signed z cs) : ∀ c ∈ cs, Inner c := by
  cases h with
  | plain h => exact h.inner
  | plus h => exact List.forall_mem_cons.mpr ⟨inner_of_ascii (by decide) (by decide), h.inner⟩
  | minus h => exact List.forall_mem_cons.mpr ⟨inner_of_ascii (by decide) (by decide), h.inner⟩

/-- An integer that a text spells: the blanks around it aside, the text is a numeral. -/
def Spells (cs : List Char) (z : Int) : Prop :=
  Signed z (Text.trimBoth isOuterBlank cs)

/-- The reader finds the integer that a text spells. -/
theorem value?_eq_some_iff {z : Int} {cs : List Char} : value? cs = some z ↔ Spells cs z := by
  have hstands : ∀ {ps}, StandFor cs ps →
      StandFor (Text.trimBoth isOuterBlank cs) (Text.trimBoth Text.isPlainBlank ps) :=
    fun h => h.trimBoth fun c d hd => isPlainBlank_of_plain? hd
  rw [value?, Option.bind_eq_bind, Option.bind_eq_some_iff]
  -- blanks and the characters of a numeral all stand for something, so the first step never fails
  -- on a text that spells a number
  constructor
  · rintro ⟨ps, hps, hz⟩
    exact (signed?_eq_some_iff (hstands (mapM_plain?_eq_some_iff.mp hps))).mp hz
  · intro h
    have hplain : ∀ c ∈ cs, ∃ p, plain? c = some p := fun c hc => by
      cases hblank : isOuterBlank c with
      | true => exact exists_plain?_of_isOuterBlank hblank
      | false => exact (Signed.inner h c (mem_trimBoth_of_mem hc hblank)).2
    obtain ⟨ps, hps⟩ := exists_standFor hplain
    exact ⟨ps, mapM_plain?_eq_some_iff.mpr hps, (signed?_eq_some_iff (hstands hps)).mpr h⟩

end Numeral

end WordAtlas
