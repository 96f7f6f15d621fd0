import Mathlib.Data.List.DropRight
import WordAtlas.Json.Reader
import WordAtlas.Proofs.JsonValues

/-!
# The grammar of JSON texts

`Spells` says which texts spell a value, blanks between the parts and all, for values whose numbers
are integers: it is the grammar of JSON without fractions and exponents.  Lists and records are
spelled by their items and fields, so a text falls into parts of three sorts.

The reader spends two units of fuel on a character at most, and it finds in a text what the grammar
says that the text spells (`Spells.reads`): by induction on how the text is spelled, for values that
are followed by anything that does not go on with a number, and for items and fields after any that
were read before.
-/

namespace WordAtlas

namespace Json

/-! ## The grammar -/

/-- Blanks that may stand between the parts of a text. -/
def Blank (cs : List Char) : Prop :=
  ∀ c ∈ cs, isSpace c = true

/-- The escapes of one letter, each with the character that it stands for. -/
def escapes : List (Char × Char) :=
  [('"', '"'), ('\\', '\\'), ('/', '/'), ('b', '\x08'), ('f', '\x0c'), ('n', '\n'), ('r', '\r'),
   ('t', '\t')]

/-- Four hexadecimal digits for a code unit. -/
inductive SpelledUnit (n : Nat) : List Char → Prop
  | digits {a b c d : Char} {i j k l : Nat} (ha : Text.Hex.value? a = some i)
      (hb : Text.Hex.value? b = some j) (hc : Text.Hex.value? c = some k)
      (hd : Text.Hex.value? d = some l) (hn : n = ((i * 16 + j) * 16 + k) * 16 + l) :
      SpelledUnit n [a, b, c, d]

/-- A character within a string: itself, unless it is a quote, a backslash or a control, the escape
of one letter, or the escape of its code unit or of the two surrogates that it is made of. -/
inductive SpelledChar (c : Char) : List Char → Prop
  | plain (hquote : c ≠ '"') (hslash : c ≠ '\\') (hcontrol : 0x20 ≤ c.toNat) : SpelledChar c [c]
  | letter {letter : Char} (h : (letter, c) ∈ escapes) : SpelledChar c ['\\', letter]
  | unit {ds : List Char} (h : SpelledUnit c.toNat ds) : SpelledChar c ('\\' :: 'u' :: ds)
  | pair {high low : Nat} {ds es : List Char} (hhigh : 0xD800 ≤ high ∧ high < 0xDC00)
      (hlow : 0xDC00 ≤ low ∧ low < 0xE000)
      (hc : c.toNat = 0x10000 + (high - 0xD800) * 0x400 + (low - 0xDC00))
      (hds : SpelledUnit high ds) (hes : SpelledUnit low es) :
      SpelledChar c ('\\' :: 'u' :: ds ++ '\\' :: 'u' :: es)

/-- The characters of a string, one after the other. -/
inductive SpelledChars : List Char → List Char → Prop
  | nil : SpelledChars [] []
  | cons {c : Char} {cs ds es : List Char} (hc : SpelledChar c ds) (hcs : SpelledChars cs es) :
      SpelledChars (c :: cs) (ds ++ es)

/-- A string in quotes. -/
inductive SpelledString (s : String) : List Char → Prop
  | quoted {cs : List Char} (h : SpelledChars s.toList cs) : SpelledString s ('"' :: cs ++ ['"'])

/-- Decimal digits, no zero in front of others. -/
inductive SpelledNat (n : Nat) : List Char → Prop
  | digits {c : Char} {cs : List Char} (hdigits : ∀ d ∈ c :: cs, d.isDigit = true)
      (hzero : c = '0' → cs = []) (hn : n = Nat.ofDigitChars 10 (c :: cs) 0) :
      SpelledNat n (c :: cs)

/-- An integer: digits, perhaps with a minus sign in front. -/
inductive SpelledInt : Int → List Char → Prop
  | plain {n : Nat} {cs : List Char} (h : SpelledNat n cs) : SpelledInt n cs
  | minus {n : Nat} {cs : List Char} (h : SpelledNat n cs) : SpelledInt (-(n : Int)) ('-' :: cs)

/-- What a piece of a text may spell: a value, the items of a list that is not empty, or the fields
of such a record. -/
inductive Part
  | value (v : Json Int)
  | items (items : List (Json Int))
  | fields (fields : List (String × Json Int))

/-- The texts of values whose numbers are integers, with any blanks between the parts. -/
inductive Spells : Part → List Char → Prop
  | null : Spells (.value .null) ['n', 'u', 'l', 'l']
  | boolTrue : Spells (.value (.bool true)) ['t', 'r', 'u', 'e']
  | boolFalse : Spells (.value (.bool false)) ['f', 'a', 'l', 's', 'e']
  | number {z : Int} {cs : List Char} (h : SpelledInt z cs) : Spells (.value (.number z)) cs
  | string {s : String} {cs : List Char} (h : SpelledString s cs) : Spells (.value (.string s)) cs
  | emptyArray {blank : List Char} (h : Blank blank) :
      Spells (.value (.array [])) ('[' :: blank ++ [']'])
  | array {items : List (Json Int)} {cs : List Char} (h : Spells (.items items) cs) :
      Spells (.value (.array items)) ('[' :: cs ++ [']'])
  | emptyObject {blank : List Char} (h : Blank blank) :
      Spells (.value (.object [])) ('{' :: blank ++ ['}'])
  | object {fields : List (String × Json Int)} {cs : List Char} (h : Spells (.fields fields) cs) :
      Spells (.value (.object fields)) ('{' :: cs ++ ['}'])
  | lastItem {v : Json Int} {before cs after : List Char} (hbefore : Blank before)
      (hv : Spells (.value v) cs) (hafter : Blank after) :
      Spells (.items [v]) (before ++ cs ++ after)
  | nextItem {v : Json Int} {items : List (Json Int)} {before cs after ds : List Char}
      (hbefore : Blank before) (hv : Spells (.value v) cs) (hafter : Blank after)
      (more : Spells (.items items) ds) :
      Spells (.items (v :: items)) (before ++ cs ++ after ++ ',' :: ds)
  | lastField {name : String} {v : Json Int} {before ns between behind cs after : List Char}
      (hbefore : Blank before) (hname : SpelledString name ns) (hbetween : Blank between)
      (hbehind : Blank behind) (hv : Spells (.value v) cs) (hafter : Blank after) :
      Spells (.fields [(name, v)]) (before ++ ns ++ between ++ ':' :: behind ++ cs ++ after)
  | nextField {name : String} {v : Json Int} {fields : List (String × Json Int)}
      {before ns between behind cs after ds : List Char}
      (hbefore : Blank before) (hname : SpelledString name ns) (hbetween : Blank between)
      (hbehind : Blank behind) (hv : Spells (.value v) cs) (hafter : Blank after)
      (more : Spells (.fields fields) ds) :
      Spells (.fields ((name, v) :: fields))
        (before ++ ns ++ between ++ ':' :: behind ++ cs ++ after ++ ',' :: ds)

/-- A text of a value, with blanks around it. -/
def IsText (v : Json Int) (cs : List Char) : Prop :=
  ∃ before body after, Blank before ∧ Spells (.value v) body ∧ Blank after ∧
    cs = before ++ body ++ after

/-! ## Strings -/

/-- Four spelled hexadecimal digits are read as the unit, up to the last of them. -/
theorem readUnit_append {n : Nat} {ds : List Char} (h : SpelledUnit n ds) (rest : List Char) :
    readUnit (ds ++ rest) = some (n, rest) := by
  cases h with
  | digits ha hb hc hd hn =>
      simp only [List.cons_append, List.nil_append, readUnit, ha, hb, hc, hd, hn]
      rfl

/-- The letters of the short escapes are read as what they stand for, and none of them begins a
unit. -/
theorem unescape?_of_mem {letter c : Char} (h : (letter, c) ∈ escapes) :
    letter ≠ 'u' ∧ unescape? letter = some c := by
  have hall : ∀ escape ∈ escapes, escape.1 ≠ 'u' ∧ unescape? escape.1 = some escape.2 := by decide
  exact hall _ h

/-- No character is half of a surrogate pair. -/
theorem toNat_valid (c : Char) :
    c.toNat < 0xD800 ∨ 0xDFFF < c.toNat ∧ c.toNat < 0x110000 :=
  c.valid

/-- A unit outside of the surrogates is read as a character by itself. -/
theorem readUnits_unit {c : Char} {ds : List Char} (h : SpelledUnit c.toNat ds)
    (rest : List Char) : readUnits (ds ++ rest) = some (c, rest) := by
  have hvalid := toNat_valid c
  rw [readUnits, readUnit_append h]
  simp only [Option.bind_eq_bind, Option.bind_some]
  rw [if_neg (by omega), if_neg (by omega), Char.ofNat_toNat]
  rfl

/-- A high and a low surrogate are read together as one character. -/
theorem readUnits_pair {high low : Nat} {c : Char} {ds es : List Char}
    (hhigh : 0xD800 ≤ high ∧ high < 0xDC00) (hlow : 0xDC00 ≤ low ∧ low < 0xE000)
    (hc : c.toNat = 0x10000 + (high - 0xD800) * 0x400 + (low - 0xDC00))
    (hds : SpelledUnit high ds) (hes : SpelledUnit low es) (rest : List Char) :
    readUnits (ds ++ '\\' :: 'u' :: es ++ rest) = some (c, rest) := by
  rw [readUnits, List.append_assoc, readUnit_append hds]
  simp only [Option.bind_eq_bind, Option.bind_some, List.cons_append]
  rw [if_pos hhigh, readUnit_append hes]
  simp only [Option.bind_some]
  rw [if_pos hlow, ← hc, Char.ofNat_toNat]
  rfl

/-- The reader takes one character of a string at a time. -/
theorem readString_char {c : Char} {ds : List Char} (h : SpelledChar c ds) (fuel : Nat)
    (taken rest : List Char) :
    readString (fuel + 1) taken (ds ++ rest) = readString fuel (c :: taken) rest := by
  cases h with
  | plain hquote hslash hcontrol =>
      have hkeep : ¬ (c = '\\' ∨ c.toNat < 0x20) := by
        rintro (h | h)
        · exact hslash h
        · omega
      rw [List.singleton_append, readString, if_neg hkeep]
      · exact hquote
      · exact fun _ h _ => hslash h
      · exact fun _ _ h _ => hslash h
  | letter h =>
      obtain ⟨hletter, hc⟩ := unescape?_of_mem h
      rw [List.cons_append, List.cons_append, List.nil_append, readString, hc]
      exact hletter
  | unit h =>
      rw [List.cons_append, List.cons_append, readString, readUnits_unit h]
  | pair hhigh hlow hc hds hes =>
      have hpair := readUnits_pair hhigh hlow hc hds hes rest
      rw [List.append_assoc] at hpair
      simp only [List.cons_append, List.append_assoc] at hpair ⊢
      rw [readString, hpair]

/-- Spelled characters are read one after the other up to the closing quote, if the fuel is more
than their number. -/
theorem readString_chars {cs ds : List Char} (h : SpelledChars cs ds) (rest : List Char) :
    ∀ {fuel : Nat} (taken : List Char), ds.length < fuel →
      readString fuel taken (ds ++ '"' :: rest) =
        some (String.ofList (taken.reverse ++ cs), rest) := by
  induction h with
  | nil =>
      intro fuel taken hfuel
      obtain ⟨fuel, rfl⟩ := Nat.exists_eq_add_one.mpr hfuel
      rw [List.nil_append, readString, List.append_nil]
  | @cons c cs ds es hc _ ih =>
      intro fuel taken hfuel
      obtain ⟨fuel, rfl⟩ := Nat.exists_eq_add_one.mpr (Nat.zero_lt_of_lt hfuel)
      have hpos : 0 < ds.length := by cases hc <;> simp
      rw [List.length_append] at hfuel
      rw [List.append_assoc, readString_char hc, ih (c :: taken) (by omega)]
      simp

/-- The reader takes a string up to its closing quote. -/
theorem readString_spelled {s : String} {cs : List Char} (h : SpelledString s cs)
    (rest : List Char) : ∃ ds, cs = '"' :: ds ∧
      ∀ {fuel : Nat}, ds.length ≤ fuel → readString fuel [] (ds ++ rest) = some (s, rest) := by
  cases h with
  | @quoted ds h =>
      refine ⟨ds ++ ['"'], rfl, fun hfuel => ?_⟩
      rw [List.length_append, List.length_singleton] at hfuel
      rw [List.append_assoc, List.singleton_append, readString_chars h rest [] hfuel]
      simp

/-! ## Numbers -/

/-- What follows does not go on with a number. -/
def Stops (rest : List Char) : Prop :=
  ∀ c ∈ rest.head?, c.isDigit = false ∧ c ≠ '.' ∧ c ≠ 'e' ∧ c ≠ 'E'

/-- The reader's value of digits is that of the library. -/
theorem valueOfDigits_eq (cs : List Char) : valueOfDigits cs = Nat.ofDigitChars 10 cs 0 :=
  Nat.ofDigitChars_eq_foldl.symm

/-- The digits are taken up to the first character that ends a number. -/
theorem takeDigits_append {cs rest : List Char} (hcs : ∀ d ∈ cs, d.isDigit = true)
    (hrest : Stops rest) : takeDigits (cs ++ rest) = (cs, rest) := by
  have hstop : rest.takeWhile Char.isDigit = [] ∧ rest.dropWhile Char.isDigit = rest := by
    cases rest with
    | nil => exact ⟨rfl, rfl⟩
    | cons c rest =>
        have hc := (hrest c rfl).1
        simp [hc]
  rw [takeDigits, List.takeWhile_append_of_pos hcs, List.dropWhile_append_of_pos hcs, hstop.1,
    hstop.2, List.append_nil]

/-- What ends a number begins no fraction. -/
theorem readFraction_of_stops {rest : List Char} (h : Stops rest) :
    readFraction rest = some (none, rest) := by
  unfold readFraction
  split
  · exact absurd rfl (h '.' rfl).2.1
  · rfl

/-- What ends a number begins no exponent. -/
theorem readExponent_of_stops {rest : List Char} (h : Stops rest) :
    readExponent rest = some (none, rest) := by
  cases rest with
  | nil => rfl
  | cons c rest =>
      have hc := (h c rfl).2.2
      rw [readExponent, if_neg (by simp [hc])]

/-- The spelling of a number is read as the number, with the sign that stood in front of it. -/
theorem readUnsigned_spelled {n : Nat} {cs rest : List Char} (h : SpelledNat n cs)
    (hrest : Stops rest) (negative : Bool) :
    readUnsigned negative (cs ++ rest) =
      some (.integer (if negative then -(n : Int) else n), rest) := by
  cases h with
  | @digits c cs hdigits hzero hn =>
      have hwhole : ((c :: cs).isEmpty ||
          ((c :: cs).head? == some '0' && decide (1 < (c :: cs).length))) = false := by
        by_cases hc : c = '0'
        · rw [hzero hc]
          simp
        · simp [hc]
      rw [readUnsigned, takeDigits_append hdigits hrest]
      simp only [hwhole, readFraction_of_stops hrest, readExponent_of_stops hrest,
        Option.bind_eq_bind, Option.bind_some, valueOfDigits_eq, ← hn]
      rfl

/-- A digit differs from everything that is no digit. -/
theorem ne_of_isDigit {c d : Char} (hc : c.isDigit = true) (hd : d.isDigit = false) : c ≠ d := by
  rintro rfl
  rw [hc] at hd
  cases hd

/-- A text that begins otherwise than a word does not begin with the word. -/
theorem dropWord?_of_head_ne {word : String} {c d : Char} {ds cs : List Char}
    (hword : word.toList = d :: ds) (hne : d ≠ c) : dropWord? word (c :: cs) = none := by
  rw [dropWord?, hword, List.isPrefixOf, beq_false_of_ne hne]
  rfl

/-- The first character of an integer is no letter. -/
theorem SpelledInt.head {z : Int} {cs : List Char} (h : SpelledInt z cs) :
    ∃ c ds, cs = c :: ds ∧ (c = '-' ∨ c.isDigit = true) := by
  cases h with
  | plain h => cases h with
    | digits hdigits => exact ⟨_, _, rfl, Or.inr (hdigits _ List.mem_cons_self)⟩
  | minus h => exact ⟨_, _, rfl, Or.inl rfl⟩

/-- What a number begins with is a minus sign or a digit, and nothing else. -/
theorem ne_of_numberHead {c d : Char} (h : c = '-' ∨ c.isDigit = true) (hminus : d ≠ '-')
    (hd : d.isDigit = false) : c ≠ d := by
  rcases h with rfl | h
  · exact hminus.symm
  · exact ne_of_isDigit h hd

/-- A number does not begin with a blank. -/
theorem isSpace_of_numberHead {c : Char} (h : c = '-' ∨ c.isDigit = true) : isSpace c = false := by
  have hspace : c ≠ ' ' := ne_of_numberHead h (by decide) (by decide)
  have hfeed : c ≠ '\n' := ne_of_numberHead h (by decide) (by decide)
  have hreturn : c ≠ '\r' := ne_of_numberHead h (by decide) (by decide)
  have htab : c ≠ '\t' := ne_of_numberHead h (by decide) (by decide)
  simp [isSpace, hspace, hfeed, hreturn, htab]

/-- The spelling of a whole number is read as the number. -/
theorem readNumber_spelled {z : Int} {cs rest : List Char} (h : SpelledInt z cs)
    (hrest : Stops rest) : readNumber (cs ++ rest) = some (.integer z, rest) := by
  cases h with
  | @plain n cs h =>
      have hread := readUnsigned_spelled h hrest false
      cases h with
      | @digits c cs hdigits _ _ =>
          have hc : c.isDigit = true := hdigits c List.mem_cons_self
          have hinfinity : dropWord? "Infinity" (c :: (cs ++ rest)) = none :=
            dropWord?_of_head_ne rfl (ne_of_isDigit hc (by decide)).symm
          have hnan : dropWord? "NaN" (c :: (cs ++ rest)) = none :=
            dropWord?_of_head_ne rfl (ne_of_isDigit hc (by decide)).symm
          have hminus : c ≠ '-' := ne_of_isDigit hc (by decide)
          rw [List.cons_append] at hread ⊢
          simp [readNumber, hminus, hinfinity, hnan, hread]
  | @minus n cs h =>
      have hread := readUnsigned_spelled h hrest true
      cases h with
      | @digits c cs hdigits _ _ =>
          have hc : c.isDigit = true := hdigits c List.mem_cons_self
          have hinfinity : dropWord? "Infinity" (c :: (cs ++ rest)) = none :=
            dropWord?_of_head_ne rfl (ne_of_isDigit hc (by decide)).symm
          have hnan : dropWord? "NaN" ('-' :: c :: (cs ++ rest)) = none :=
            dropWord?_of_head_ne rfl (by decide)
          rw [List.cons_append] at hread
          simp [readNumber, hinfinity, hnan, hread]

/-! ## Values -/

/-- Blanks in front are passed over. -/
theorem skipSpaces_append {before : List Char} (h : Blank before) (cs : List Char) :
    skipSpaces (before ++ cs) = skipSpaces cs :=
  List.dropWhile_append_of_pos h

/-- Nothing is passed over in front of a character that is no blank. -/
theorem skipSpaces_cons {c : Char} (h : isSpace c = false) (cs : List Char) :
    skipSpaces (c :: cs) = c :: cs := by
  rw [skipSpaces, List.dropWhile_cons, h]
  rfl

/-- Passing over blanks twice passes over no more. -/
theorem skipSpaces_idem (cs : List Char) : skipSpaces (skipSpaces cs) = skipSpaces cs :=
  List.dropWhile_idempotent _ _

/-- A value is read alike with and without the blanks in front of it. -/
theorem readValue_skipSpaces (fuel : Nat) (cs : List Char) :
    readValue fuel (skipSpaces cs) = readValue fuel cs := by
  cases fuel with
  | zero => rw [readValue, readValue]
  | succ fuel => rw [readValue, readValue, skipSpaces_idem]

/-- Items are read alike with and without the blanks in front of them. -/
theorem readItems_skipSpaces (fuel : Nat) (taken : List (Json Number)) (cs : List Char) :
    readItems fuel taken (skipSpaces cs) = readItems fuel taken cs := by
  cases fuel with
  | zero => rw [readItems, readItems]
  | succ fuel => rw [readItems, readItems, readValue_skipSpaces]

/-- Fields are read alike with and without the blanks in front of them. -/
theorem readFields_skipSpaces (fuel : Nat) (taken : List (String × Json Number))
    (cs : List Char) : readFields fuel taken (skipSpaces cs) = readFields fuel taken cs := by
  cases fuel with
  | zero => rw [readFields, readFields]
  | succ fuel => rw [readFields, readFields, skipSpaces_idem]

/-- A value begins with a character that neither is a blank nor closes a list. -/
theorem Spells.head {v : Json Int} {cs : List Char} (h : Spells (.value v) cs) :
    ∃ c ds, cs = c :: ds ∧ isSpace c = false ∧ c ≠ ']' := by
  cases h with
  | null => exact ⟨_, _, rfl, by decide⟩
  | boolTrue => exact ⟨_, _, rfl, by decide⟩
  | boolFalse => exact ⟨_, _, rfl, by decide⟩
  | number h =>
      obtain ⟨c, ds, rfl, hc⟩ := h.head
      exact ⟨c, ds, rfl, isSpace_of_numberHead hc, ne_of_numberHead hc (by decide) (by decide)⟩
  | string h =>
      cases h
      exact ⟨_, _, rfl, by decide⟩
  | emptyArray => exact ⟨_, _, rfl, by decide⟩
  | array => exact ⟨_, _, rfl, by decide⟩
  | emptyObject => exact ⟨_, _, rfl, by decide⟩
  | object => exact ⟨_, _, rfl, by decide⟩

/-- What begins like a number is read as a number. -/
theorem readValue_number {c : Char} {cs : List Char} (h : c = '-' ∨ c.isDigit = true)
    (fuel : Nat) : readValue (fuel + 1) (c :: cs) =
      (readNumber (c :: cs)).map fun (n, rest) => (.number n, rest) := by
  rw [readValue, skipSpaces_cons (isSpace_of_numberHead h)]
  split
  case h_7 => rfl
  all_goals
    rename_i heq
    exact absurd (List.cons.inj heq).1 (ne_of_numberHead h (by decide) (by decide))

/-- What begins with a quote is read as a string. -/
theorem readValue_string (fuel : Nat) (cs : List Char) : readValue (fuel + 1) ('"' :: cs) =
    (readString fuel [] cs).map fun (s, rest) => (.string s, rest) := by
  rw [readValue, skipSpaces_cons (by decide)]
  rfl

/-- Two brackets with nothing but blanks between them are the empty list. -/
theorem readValue_emptyArray {cs rest : List Char} (h : skipSpaces cs = ']' :: rest) (fuel : Nat) :
    readValue (fuel + 1) ('[' :: cs) = some (.array [], rest) := by
  rw [readValue, skipSpaces_cons (by decide)]
  simp only [h]

/-- Two braces with nothing but blanks between them are the record without fields. -/
theorem readValue_emptyObject {cs rest : List Char} (h : skipSpaces cs = '}' :: rest) (fuel : Nat) :
    readValue (fuel + 1) ('{' :: cs) = some (.object [], rest) := by
  rw [readValue, skipSpaces_cons (by decide)]
  simp only [h]

/-- What follows an opening bracket is otherwise read as items. -/
theorem readValue_array {cs ds : List Char} {c : Char} (h : skipSpaces cs = c :: ds) (hc : c ≠ ']')
    (fuel : Nat) : readValue (fuel + 1) ('[' :: cs) = readItems fuel [] cs := by
  rw [← readItems_skipSpaces fuel, readValue, skipSpaces_cons (by decide)]
  simp only [h]
  split
  · rename_i heq
    cases heq
    exact absurd rfl hc
  · rfl

/-- What follows an opening brace is otherwise read as fields. -/
theorem readValue_object {cs ds : List Char} {c : Char} (h : skipSpaces cs = c :: ds)
    (hc : c ≠ '}') (fuel : Nat) : readValue (fuel + 1) ('{' :: cs) = readFields fuel [] cs := by
  rw [← readFields_skipSpaces fuel, readValue, skipSpaces_cons (by decide)]
  simp only [h]
  split
  · rename_i heq
    cases heq
    exact absurd rfl hc
  · rfl

/-- Blanks in front of a value do not matter. -/
theorem readValue_blank {before : List Char} (h : Blank before) (fuel : Nat) (cs : List Char) :
    readValue fuel (before ++ cs) = readValue fuel cs := by
  rw [← readValue_skipSpaces, skipSpaces_append h, readValue_skipSpaces]

/-- An item in front of the closing bracket is the last one. -/
theorem readItems_last {fuel : Nat} {taken : List (Json Number)} {v : Json Number}
    {cs more rest : List Char} (hv : readValue fuel cs = some (v, more))
    (hmore : skipSpaces more = ']' :: rest) :
    readItems (fuel + 1) taken cs = some (.array (taken.reverse ++ [v]), rest) := by
  simp only [readItems, hv, hmore, List.reverse_cons]

/-- Behind an item and a comma the next one is read. -/
theorem readItems_next {fuel : Nat} {taken : List (Json Number)} {v : Json Number}
    {cs more rest : List Char} (hv : readValue fuel cs = some (v, more))
    (hmore : skipSpaces more = ',' :: rest) :
    readItems (fuel + 1) taken cs = readItems fuel (v :: taken) rest := by
  simp only [readItems, hv, hmore]

/-- A field in front of the closing brace is the last one. -/
theorem readFields_last {fuel : Nat} {taken : List (String × Json Number)} {name : String}
    {v : Json Number} {cs ns between vs more rest : List Char}
    (hquote : skipSpaces cs = '"' :: ns) (hname : readString fuel [] ns = some (name, between))
    (hcolon : skipSpaces between = ':' :: vs) (hv : readValue fuel vs = some (v, more))
    (hmore : skipSpaces more = '}' :: rest) :
    readFields (fuel + 1) taken cs = some (.object (taken.reverse ++ [(name, v)]), rest) := by
  simp only [readFields, hquote, hname, hcolon, hv, hmore, List.reverse_cons]

/-- Behind a field and a comma the next one is read. -/
theorem readFields_next {fuel : Nat} {taken : List (String × Json Number)} {name : String}
    {v : Json Number} {cs ns between vs more rest : List Char}
    (hquote : skipSpaces cs = '"' :: ns) (hname : readString fuel [] ns = some (name, between))
    (hcolon : skipSpaces between = ':' :: vs) (hv : readValue fuel vs = some (v, more))
    (hmore : skipSpaces more = ',' :: rest) :
    readFields (fuel + 1) taken cs = readFields fuel ((name, v) :: taken) rest := by
  simp only [readFields, hquote, hname, hcolon, hv, hmore]

/-- What the reader makes of a piece of a text that is followed by another: a value, or the list or
record that the items or fields complete. -/
def Reads : Part → List Char → Prop
  | .value v, cs => ∀ {fuel : Nat} {rest : List Char}, Stops rest → 2 * cs.length ≤ fuel →
      readValue fuel (cs ++ rest) = some (v.map .integer, rest)
  | .items items, cs => ∀ {fuel : Nat} (taken : List (Json Number)) (rest : List Char),
      2 * cs.length + 1 ≤ fuel → readItems fuel taken (cs ++ ']' :: rest) =
        some (.array (taken.reverse ++ mapItems .integer items), rest)
  | .fields fields, cs => ∀ {fuel : Nat} (taken : List (String × Json Number)) (rest : List Char),
      2 * cs.length + 1 ≤ fuel → readFields fuel taken (cs ++ '}' :: rest) =
        some (.object (taken.reverse ++ mapFields .integer fields), rest)

/-- A blank ends a number. -/
theorem stops_of_isSpace {c : Char} (h : isSpace c = true) :
    c.isDigit = false ∧ c ≠ '.' ∧ c ≠ 'e' ∧ c ≠ 'E' := by
  simp only [isSpace, Bool.or_eq_true, beq_iff_eq] at h
  rcases h with ((rfl | rfl) | rfl) | rfl <;> decide

/-- What may follow a value ends a number, with or without blanks in front of it. -/
theorem stops_of_blank {after : List Char} (hafter : Blank after) {c : Char}
    (hc : c ∈ [',', ']', '}']) (rest : List Char) : Stops (after ++ c :: rest) := by
  cases after with
  | nil =>
      simp only [List.mem_cons, List.not_mem_nil, or_false] at hc
      rintro d ⟨⟩
      rcases hc with rfl | rfl | rfl <;> decide
  | cons d after =>
      rintro e ⟨⟩
      exact stops_of_isSpace (hafter d List.mem_cons_self)

/-- Blanks are passed over up to the first character that is none. -/
theorem skipSpaces_blank_cons {after : List Char} (hafter : Blank after) {c : Char}
    (hc : isSpace c = false) (rest : List Char) : skipSpaces (after ++ c :: rest) = c :: rest := by
  rw [skipSpaces_append hafter, skipSpaces_cons hc]

/-- Spelled items do not begin with a closing bracket. -/
theorem Spells.items_head {items : List (Json Int)} {cs : List Char} (h : Spells (.items items) cs)
    (rest : List Char) : ∃ c ds, skipSpaces (cs ++ rest) = c :: ds ∧ c ≠ ']' := by
  cases h with
  | lastItem hbefore hv _ =>
      obtain ⟨c, ds, rfl, hspace, hc⟩ := hv.head
      simp only [List.append_assoc, List.cons_append]
      exact ⟨c, _, skipSpaces_blank_cons hbefore hspace _, hc⟩
  | nextItem hbefore hv _ _ =>
      obtain ⟨c, ds, rfl, hspace, hc⟩ := hv.head
      simp only [List.append_assoc, List.cons_append]
      exact ⟨c, _, skipSpaces_blank_cons hbefore hspace _, hc⟩

/-- Spelled fields begin with a quote. -/
theorem Spells.fields_head {fields : List (String × Json Int)} {cs : List Char}
    (h : Spells (.fields fields) cs) (rest : List Char) :
    ∃ ds, skipSpaces (cs ++ rest) = '"' :: ds := by
  cases h with
  | lastField hbefore hname _ _ _ _ =>
      cases hname
      simp only [List.append_assoc, List.cons_append]
      exact ⟨_, skipSpaces_blank_cons hbefore (by decide) _⟩
  | nextField hbefore hname _ _ _ _ _ =>
      cases hname
      simp only [List.append_assoc, List.cons_append]
      exact ⟨_, skipSpaces_blank_cons hbefore (by decide) _⟩

/-- **The reader finds what a text spells.** -/
theorem Spells.reads {part : Part} {cs : List Char} (h : Spells part cs) : Reads part cs := by
  -- a value takes one unit of fuel, and what is inside it is shorter by a character
  have henter : ∀ {c : Char} {cs : List Char} {fuel : Nat}, 2 * (c :: cs).length ≤ fuel →
      ∃ f, fuel = f + 1 ∧ 2 * cs.length + 1 ≤ f := fun {c cs fuel} h => by
    rw [List.length_cons] at h
    exact ⟨fuel - 1, by omega, by omega⟩
  induction h with
  | null =>
      intro fuel rest _ hfuel
      obtain ⟨fuel, rfl, -⟩ := henter hfuel
      rw [readValue]
      rfl
  | boolTrue =>
      intro fuel rest _ hfuel
      obtain ⟨fuel, rfl, -⟩ := henter hfuel
      rw [readValue]
      rfl
  | boolFalse =>
      intro fuel rest _ hfuel
      obtain ⟨fuel, rfl, -⟩ := henter hfuel
      rw [readValue]
      rfl
  | number h =>
      intro fuel rest hrest hfuel
      obtain ⟨c, ds, rfl, hc⟩ := h.head
      obtain ⟨fuel, rfl, -⟩ := henter hfuel
      have hread := readNumber_spelled h hrest
      rw [List.cons_append] at hread ⊢
      rw [readValue_number hc, hread]
      rfl
  | string h =>
      intro fuel rest _ hfuel
      obtain ⟨ds, rfl, hread⟩ := readString_spelled h rest
      obtain ⟨fuel, rfl, hmore⟩ := henter hfuel
      rw [List.cons_append, readValue_string, hread (by omega)]
      rfl
  | @emptyArray blank hblank =>
      intro fuel rest _ hfuel
      obtain ⟨fuel, rfl, -⟩ := henter hfuel
      rw [List.cons_append, List.cons_append, List.append_assoc, List.singleton_append,
        readValue_emptyArray (skipSpaces_blank_cons hblank (by decide) rest)]
      rfl
  | array h ih =>
      intro fuel rest _ hfuel
      rw [List.cons_append] at hfuel
      obtain ⟨fuel, rfl, hmore⟩ := henter hfuel
      obtain ⟨c, ds, hhead, hc⟩ := h.items_head (']' :: rest)
      rw [List.length_append] at hmore
      rw [List.cons_append, List.cons_append, List.append_assoc, List.singleton_append,
        readValue_array hhead hc, ih [] rest (by omega)]
      rfl
  | @emptyObject blank hblank =>
      intro fuel rest _ hfuel
      obtain ⟨fuel, rfl, -⟩ := henter hfuel
      rw [List.cons_append, List.cons_append, List.append_assoc, List.singleton_append,
        readValue_emptyObject (skipSpaces_blank_cons hblank (by decide) rest)]
      rfl
  | object h ih =>
      intro fuel rest _ hfuel
      rw [List.cons_append] at hfuel
      obtain ⟨fuel, rfl, hmore⟩ := henter hfuel
      obtain ⟨ds, hhead⟩ := h.fields_head ('}' :: rest)
      rw [List.length_append] at hmore
      rw [List.cons_append, List.cons_append, List.append_assoc, List.singleton_append,
        readValue_object hhead (by decide), ih [] rest (by omega)]
      rfl
  | lastItem hbefore _ hafter ih =>
      intro fuel taken rest hfuel
      obtain ⟨fuel, rfl⟩ := Nat.exists_eq_add_one.mpr (Nat.zero_lt_of_lt hfuel)
      simp only [List.length_append] at hfuel
      have hv := @ih fuel _ (stops_of_blank hafter (c := ']') (by decide) rest) (by omega)
      rw [List.append_assoc, List.append_assoc,
        readItems_last ((readValue_blank hbefore fuel _).trans hv)
          (skipSpaces_blank_cons hafter (by decide) rest)]
      rfl
  | @nextItem v items before cs after ds hbefore _ hafter _ ih ihmore =>
      intro fuel taken rest hfuel
      obtain ⟨fuel, rfl⟩ := Nat.exists_eq_add_one.mpr (Nat.zero_lt_of_lt hfuel)
      simp only [List.length_append, List.length_cons] at hfuel
      have hv := @ih fuel _
        (stops_of_blank hafter (c := ',') (by decide) (ds ++ ']' :: rest)) (by omega)
      simp only [List.append_assoc, List.cons_append]
      rw [readItems_next ((readValue_blank hbefore fuel _).trans hv)
          (skipSpaces_blank_cons hafter (by decide) _), ihmore _ _ (by omega), mapItems,
        List.reverse_cons, List.append_assoc, List.singleton_append]
  | @lastField name v before ns between behind cs after hbefore hname hbetween hbehind _ hafter
      ih =>
      intro fuel taken rest hfuel
      obtain ⟨fuel, rfl⟩ := Nat.exists_eq_add_one.mpr (Nat.zero_lt_of_lt hfuel)
      obtain ⟨ms, rfl, hread⟩ := readString_spelled hname
        (between ++ ':' :: (behind ++ (cs ++ (after ++ '}' :: rest))))
      simp only [List.length_append, List.length_cons] at hfuel
      have hv := @ih fuel _ (stops_of_blank hafter (c := '}') (by decide) rest) (by omega)
      simp only [List.append_assoc, List.cons_append]
      rw [readFields_last (skipSpaces_blank_cons hbefore (by decide) _) (hread (by omega))
          (skipSpaces_blank_cons hbetween (by decide) _) ((readValue_blank hbehind fuel _).trans hv)
          (skipSpaces_blank_cons hafter (by decide) rest)]
      rfl
  | @nextField name v fields before ns between behind cs after ds hbefore hname hbetween hbehind _
      hafter _ ih ihmore =>
      intro fuel taken rest hfuel
      obtain ⟨fuel, rfl⟩ := Nat.exists_eq_add_one.mpr (Nat.zero_lt_of_lt hfuel)
      obtain ⟨ms, rfl, hread⟩ := readString_spelled hname
        (between ++ ':' :: (behind ++ (cs ++ (after ++ ',' :: (ds ++ '}' :: rest)))))
      simp only [List.length_append, List.length_cons] at hfuel
      have hv := @ih fuel _
        (stops_of_blank hafter (c := ',') (by decide) (ds ++ '}' :: rest)) (by omega)
      simp only [List.append_assoc, List.cons_append]
      rw [readFields_next (skipSpaces_blank_cons hbefore (by decide) _) (hread (by omega))
          (skipSpaces_blank_cons hbetween (by decide) _) ((readValue_blank hbehind fuel _).trans hv)
          (skipSpaces_blank_cons hafter (by decide) _), ihmore _ _ (by omega), mapFields,
        List.reverse_cons, List.append_assoc, List.singleton_append]

/-- A text of a value is read as that value. -/
theorem IsText.ofChars? {v : Json Int} {cs : List Char} (h : IsText v cs) :
    ofChars? cs = some (v.map .integer) := by
  obtain ⟨before, body, after, hbefore, hbody, hafter, rfl⟩ := h
  have hstops : Stops after := fun c hc =>
    stops_of_isSpace (hafter c (List.mem_of_mem_head? hc))
  have hfuel : 2 * body.length ≤ 2 * (before ++ (body ++ after)).length + 2 := by
    simp only [List.length_append]
    omega
  have hend : skipSpaces after = [] := List.dropWhile_eq_nil_iff.mpr hafter
  rw [Json.ofChars?, List.append_assoc, readValue_blank hbefore, hbody.reads hstops hfuel]
  simp [hend]

end Json

end WordAtlas
