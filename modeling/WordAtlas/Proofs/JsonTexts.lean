import WordAtlas.Json.Writer
import WordAtlas.Proofs.JsonGrammar

/-!
# The texts of values

Whatever blanks a style puts between the parts, what is written is a text that spells the value
(`spells_write`), so the reader finds the value in it again.  All that the writer does to a
character is said once, by `Written`: what is written is spelled, printable, and left alone by the
deletion of blanks outside strings, each by the same four cases.  Over values, each of the three is
an induction with a case for each constructor: `spells_write`, `forall_mem_write` and
`withoutBlanks_write`.

The main statement is `text_faithful`.
-/

namespace WordAtlas

namespace Json

/-! ## Characters and numbers -/

/-- One place more is the last digit behind the places for the other digits. -/
theorem filled_succ {width : Nat} (hwidth : 0 < width) (n : Nat) :
    Text.Hex.filled (width + 1) n = Text.Hex.filled width (n / 16) ++ [(n % 16).digitChar] := by
  by_cases hsmall : n < 16
  · obtain ⟨more, rfl⟩ := Nat.exists_eq_add_one.mpr hwidth
    rw [Nat.div_eq_of_lt hsmall, Nat.mod_eq_of_lt hsmall]
    simp only [Text.Hex.filled, Nat.toDigits_of_lt_base hsmall, Nat.toDigits_zero,
      List.length_singleton, Nat.add_sub_cancel, List.replicate_succ']
  · have hdigits := Nat.toDigits_of_base_le (by decide : 1 < 16) (Nat.le_of_not_lt hsmall)
    simp only [Text.Hex.filled, hdigits, List.length_append, List.length_singleton,
      Nat.add_sub_add_right, List.append_assoc]

/-- Four places hold the four digits of a number below 65536. -/
theorem filled_four {n : Nat} (h : n < 0x10000) : Text.Hex.filled 4 n =
    [(n / 16 / 16 / 16).digitChar, (n / 16 / 16 % 16).digitChar, (n / 16 % 16).digitChar,
      (n % 16).digitChar] := by
  have hone : Text.Hex.filled 1 (n / 16 / 16 / 16) = [(n / 16 / 16 / 16).digitChar] := by
    rw [Text.Hex.filled, Nat.toDigits_of_lt_base (by omega)]
    rfl
  rw [filled_succ (by decide), filled_succ (by decide), filled_succ (by decide), hone]
  rfl

/-- The digit that is written for a number below sixteen is read as the number. -/
theorem value?_digitChar {n : Nat} (h : n < 16) : Text.Hex.value? n.digitChar = some n := by
  have hall : ∀ n < 16, Text.Hex.value? n.digitChar = some n := by decide
  exact hall n h

/-- Four places of hexadecimal digits spell the unit that they were filled with. -/
theorem spelledUnit_filled {n : Nat} (h : n < 0x10000) : SpelledUnit n (Text.Hex.filled 4 n) := by
  rw [filled_four h]
  exact .digits (value?_digitChar (by omega)) (value?_digitChar (by omega))
    (value?_digitChar (by omega)) (value?_digitChar (by omega)) (by omega)

/-- What the writer makes of a character: itself, an escape of one letter, or the escape of one code
unit or of two surrogates. -/
inductive Written (c : Char) : List Char → Prop
  | plain (hquote : c ≠ '"') (hslash : c ≠ '\\') (hrange : 0x20 ≤ c.toNat ∧ c.toNat ≤ 0x7E) :
      Written c [c]
  | letter {letter : Char} (h : (letter, c) ∈ escapes) : Written c ['\\', letter]
  | unit (h : c.toNat < 0x10000) : Written c (writeUnit c.toNat)
  | pair {high low : Nat} (hhigh : 0xD800 ≤ high ∧ high < 0xDC00)
      (hlow : 0xDC00 ≤ low ∧ low < 0xE000)
      (hc : c.toNat = 0x10000 + (high - 0xD800) * 0x400 + (low - 0xDC00)) :
      Written c (writeUnit high ++ writeUnit low)

/-- What is written for a character is written in one of the ways there are. -/
theorem written_writeChar (c : Char) : Written c (writeChar c) := by
  unfold writeChar
  split
  · subst c; exact .letter (by decide)
  split
  · subst c; exact .letter (by decide)
  split
  · subst c; exact .letter (by decide)
  split
  · subst c; exact .letter (by decide)
  split
  · subst c; exact .letter (by decide)
  split
  · rename_i h
    obtain rfl : c = '\x08' := Char.toNat_inj.mp h
    exact .letter (by decide)
  split
  · rename_i h
    obtain rfl : c = '\x0c' := Char.toNat_inj.mp h
    exact .letter (by decide)
  split
  · rename_i hquote hslash _ _ _ _ _ hrange
    exact .plain hquote hslash hrange
  split
  · rename_i h
    exact .unit h
  · have hvalid := toNat_valid c
    refine .pair ⟨?_, ?_⟩ ⟨?_, ?_⟩ ?_ <;> omega

/-- In each of these ways the character is spelled. -/
theorem Written.spelled {c : Char} {cs : List Char} (h : Written c cs) : SpelledChar c cs := by
  cases h with
  | plain hquote hslash hrange => exact .plain hquote hslash hrange.1
  | letter h => exact .letter h
  | unit h => exact .unit (spelledUnit_filled h)
  | pair hhigh hlow hc =>
      exact .pair hhigh hlow hc (spelledUnit_filled (by omega)) (spelledUnit_filled (by omega))

/-- The characters of a text, written one behind the other, are spelled. -/
theorem spelledChars_flatMap (cs : List Char) : SpelledChars cs (cs.flatMap writeChar) := by
  induction cs with
  | nil => exact .nil
  | cons c rest ih => exact .cons (written_writeChar c).spelled ih

/-- A text is written as a spelling of it. -/
theorem spelledString_writeString (s : String) : SpelledString s (writeString s) :=
  .quoted (spelledChars_flatMap s.toList)

/-- Only the number zero is written with a zero in front. -/
theorem eq_zero_of_head? {n : Nat} (h : (Nat.toDigits 10 n).head? = some '0') : n = 0 := by
  induction n using Nat.strongRecOn with
  | ind n ih =>
      by_cases hsmall : n < 10
      · have hall : ∀ n < 10, n.digitChar = '0' → n = 0 := by decide
        rw [Nat.toDigits_of_lt_base hsmall] at h
        exact hall n hsmall (Option.some.inj h)
      · have hle : 10 ≤ n := Nat.le_of_not_lt hsmall
        rw [Nat.toDigits_of_base_le (by decide) hle,
          List.head?_append_of_ne_nil _ Nat.toDigits_ne_nil] at h
        have hquotient := ih (n / 10) (by omega) h
        omega

/-- The digits of a number spell it. -/
theorem spelledNat_toDigits (n : Nat) : SpelledNat n (Nat.toDigits 10 n) := by
  have hdigits : ∀ d ∈ Nat.toDigits 10 n, d.isDigit = true := fun _ hd =>
    Nat.isDigit_of_mem_toDigits (by decide) (by decide) hd
  have hvalue : n = Nat.ofDigitChars 10 (Nat.toDigits 10 n) 0 := Nat.ofDigitChars_ten_toDigits.symm
  have hzero : (Nat.toDigits 10 n).head? = some '0' → Nat.toDigits 10 n = ['0'] := fun h => by
    rw [eq_zero_of_head? h, Nat.toDigits_zero]
  cases hcs : Nat.toDigits 10 n with
  | nil => exact absurd hcs Nat.toDigits_ne_nil
  | cons c cs =>
      rw [hcs] at hdigits hvalue hzero
      refine .digits hdigits (fun hc => ?_) hvalue
      rw [hc] at hzero
      exact (List.cons.inj (hzero rfl)).2

/-- A number is written as a spelling of it. -/
theorem spelledInt_writeInt (z : Int) : SpelledInt z (writeInt z) := by
  have hdigits := spelledNat_toDigits z.natAbs
  unfold writeInt
  split
  · rename_i hneg
    have hz : z = -(z.natAbs : Int) := by omega
    rw [hz, Int.natAbs_neg, Int.natAbs_natCast]
    exact .minus hdigits
  · rename_i hpos
    have hz : z = (z.natAbs : Int) := by omega
    rw [hz, Int.natAbs_natCast]
    exact .plain hdigits

/-! ## Values -/

/-- The style puts nothing but blanks and line feeds between the parts. -/
structure Style.Airy (style : Style) : Prop where
  afterColon : ∀ c ∈ style.afterColon, c = ' ' ∨ c = '\n'
  lineBreak : ∀ depth, ∀ c ∈ style.lineBreak depth, c = ' ' ∨ c = '\n'

/-- The compact style puts in no blanks at all. -/
theorem compact_airy : Style.compact.Airy :=
  ⟨nofun, fun _ => nofun⟩

/-- The spread style puts in spaces and line ends only. -/
theorem spread_airy : Style.spread.Airy where
  afterColon _ hc := Or.inl (List.mem_singleton.mp hc)
  lineBreak _ _ hc := (List.mem_cons.mp hc).symm.imp_left List.eq_of_mem_replicate

/-- Spaces and line ends are blank. -/
theorem blank_of_airy {cs : List Char} (h : ∀ c ∈ cs, c = ' ' ∨ c = '\n') : Blank cs := by
  intro c hc
  rcases h c hc with rfl | rfl <;> decide

/-- What an airy style puts behind a colon is blank. -/
theorem Style.Airy.blank_afterColon {style : Style} (h : style.Airy) : Blank style.afterColon :=
  blank_of_airy h.afterColon

/-- What an airy style puts between two entries is blank. -/
theorem Style.Airy.blank_lineBreak {style : Style} (h : style.Airy) (depth : Nat) :
    Blank (style.lineBreak depth) :=
  blank_of_airy (h.lineBreak depth)

/-- Nothing at all is blank. -/
theorem blank_nil : Blank [] :=
  nofun

/-- Items are written as a spelling of them, with blanks in front of the first and behind the
last. -/
theorem spells_items {style : Style} (hstyle : style.Airy) (depth : Nat) {v : Json Int}
    {rest : List (Json Int)} (hv : ∀ d, Spells (.value v) (write style d v))
    (hrest : ∀ item ∈ rest, ∀ d, Spells (.value item) (write style d item))
    {before after : List Char} (hbefore : Blank before) (hafter : Blank after) :
    Spells (.items (v :: rest))
      (before ++ write style depth v ++ (writeItems style depth rest ++ after)) := by
  induction rest generalizing v before with
  | nil => exact .lastItem hbefore (hv depth) hafter
  | cons next rest ih =>
      obtain ⟨hnext, hrest⟩ := List.forall_mem_cons.mp hrest
      have hmore := ih hnext hrest (hstyle.blank_lineBreak depth)
      have hspells := Spells.nextItem hbefore (hv depth) blank_nil hmore
      simpa [writeItems] using hspells

/-- Fields are written as a spelling of them, with blanks in front of the first and behind the
last. -/
theorem spells_fields {style : Style} (hstyle : style.Airy) (depth : Nat)
    {field : String × Json Int} {rest : List (String × Json Int)}
    (hfield : ∀ d, Spells (.value field.2) (write style d field.2))
    (hrest : ∀ field ∈ rest, ∀ d, Spells (.value field.2) (write style d field.2))
    {before after : List Char} (hbefore : Blank before) (hafter : Blank after) :
    Spells (.fields (field :: rest))
      (before ++ writeString field.1 ++ ':' :: style.afterColon ++ write style depth field.2 ++
        (writeFields style depth rest ++ after)) := by
  have hname := spelledString_writeString field.1
  induction rest generalizing field before with
  | nil =>
      have hspells := Spells.lastField hbefore hname blank_nil hstyle.blank_afterColon
        (hfield depth) hafter
      simpa [writeFields] using hspells
  | cons next rest ih =>
      obtain ⟨hnext, hrest⟩ := List.forall_mem_cons.mp hrest
      have hmore := ih hnext hrest (hstyle.blank_lineBreak depth) (spelledString_writeString next.1)
      have hspells := Spells.nextField hbefore hname blank_nil hstyle.blank_afterColon
        (hfield depth) blank_nil hmore
      simpa [writeFields] using hspells

/-- What is written spells the value. -/
theorem spells_write {style : Style} (hstyle : style.Airy) (v : Json Int) (depth : Nat) :
    Spells (.value v) (write style depth v) := by
  induction v using Json.induct generalizing depth with
  | null => exact .null
  | bool b => cases b with
    | true => exact .boolTrue
    | false => exact .boolFalse
  | number z => exact .number (spelledInt_writeInt z)
  | string s => exact .string (spelledString_writeString s)
  | array items ih =>
      cases items with
      | nil => exact .emptyArray blank_nil
      | cons item rest =>
          obtain ⟨hitem, hrest⟩ := List.forall_mem_cons.mp ih
          have hspells := Spells.array (spells_items hstyle (depth + 1) hitem hrest
            (hstyle.blank_lineBreak (depth + 1)) (hstyle.blank_lineBreak depth))
          simpa [write] using hspells
  | object fields ih =>
      cases fields with
      | nil => exact .emptyObject blank_nil
      | cons field rest =>
          obtain ⟨hvalue, hrest⟩ := List.forall_mem_cons.mp ih
          have hspells := Spells.object (spells_fields hstyle (depth + 1) hvalue hrest
            (hstyle.blank_lineBreak (depth + 1)) (hstyle.blank_lineBreak depth))
          simpa [write] using hspells

/-! ## The characters of a text -/

/-- A character of ASCII that is no control. -/
def Printable (c : Char) : Prop :=
  0x20 ≤ c.toNat ∧ c.toNat ≤ 0x7E

instance (c : Char) : Decidable (Printable c) :=
  inferInstanceAs (Decidable (_ ∧ _))

/-- Hexadecimal digits are printable. -/
theorem printable_digitChar {n : Nat} (h : n < 16) : Printable n.digitChar := by
  have hall : ∀ n < 16, Printable n.digitChar := by decide
  exact hall n h

/-- The escape of a unit is printable. -/
theorem printable_writeUnit {n : Nat} (h : n < 0x10000) : ∀ c ∈ writeUnit n, Printable c := by
  rw [writeUnit, filled_four h]
  simp only [List.forall_mem_cons]
  exact ⟨by decide, by decide, printable_digitChar (by omega), printable_digitChar (by omega),
    printable_digitChar (by omega), printable_digitChar (by omega), nofun⟩

/-- In whatever way a character is written, what is written is printable. -/
theorem Written.printable {c : Char} {cs : List Char} (h : Written c cs) :
    ∀ d ∈ cs, Printable d := by
  cases h with
  | plain _ _ hrange => exact List.forall_mem_singleton.mpr hrange
  | letter h =>
      have hall : ∀ escape ∈ escapes, Printable escape.1 := by decide
      exact List.forall_mem_cons.mpr ⟨by decide, List.forall_mem_singleton.mpr (hall _ h)⟩
  | unit h => exact printable_writeUnit h
  | pair hhigh hlow _ =>
      exact List.forall_mem_append.mpr
        ⟨printable_writeUnit (by omega), printable_writeUnit (by omega)⟩

/-- What is written for a text is printable. -/
theorem printable_writeString (s : String) : ∀ c ∈ writeString s, Printable c := by
  have hquote : Printable '"' := by decide
  have hchars : ∀ c ∈ s.toList.flatMap writeChar, Printable c := fun c hc => by
    obtain ⟨d, -, hd⟩ := List.mem_flatMap.mp hc
    exact (written_writeChar d).printable c hd
  exact List.forall_mem_append.mpr
    ⟨List.forall_mem_cons.mpr ⟨hquote, hchars⟩, List.forall_mem_singleton.mpr hquote⟩

/-- A number is written with digits and a minus sign alone. -/
theorem mem_writeInt {z : Int} : ∀ c ∈ writeInt z, c = '-' ∨ c.isDigit = true := by
  have hdigits : ∀ c ∈ Nat.toDigits 10 z.natAbs, c = '-' ∨ c.isDigit = true := fun _ hc =>
    Or.inr (Nat.isDigit_of_mem_toDigits (by decide) (by decide) hc)
  unfold writeInt
  split
  · exact List.forall_mem_cons.mpr ⟨Or.inl rfl, hdigits⟩
  · exact hdigits

/-- What is written for a number is printable. -/
theorem printable_writeInt (z : Int) : ∀ c ∈ writeInt z, Printable c := by
  intro c hc
  rcases mem_writeInt c hc with rfl | hdigit
  · decide
  · obtain ⟨hlow, hhigh⟩ := Char.isDigit_iff_toNat.mp hdigit
    exact ⟨Nat.le_trans (by decide) hlow, Nat.le_trans hhigh (by decide)⟩

section

variable {p : Char → Prop} (hplain : ∀ c, Printable c → p c) {style : Style}
  (hcolon : ∀ c ∈ style.afterColon, p c) (hbreak : ∀ depth, ∀ c ∈ style.lineBreak depth, p c)

include hplain hbreak in
/-- What holds of the characters of all items, and of those between items, holds of the whole. -/
theorem forall_mem_writeItems {items : List (Json Int)} (depth : Nat)
    (h : ∀ item ∈ items, ∀ d, ∀ c ∈ write style d item, p c) :
    ∀ c ∈ writeItems style depth items, p c := by
  induction items with
  | nil => nofun
  | cons item rest ih =>
      obtain ⟨hitem, hrest⟩ := List.forall_mem_cons.mp h
      simp only [writeItems, List.forall_mem_append, List.forall_mem_cons, List.cons_append]
      exact ⟨hplain ',' (by decide), ⟨hbreak depth, hitem depth⟩, ih hrest⟩

include hplain hcolon hbreak in
/-- What holds of the characters of all fields, and of those between fields, holds of the whole. -/
theorem forall_mem_writeFields {fields : List (String × Json Int)} (depth : Nat)
    (h : ∀ field ∈ fields, ∀ d, ∀ c ∈ write style d field.2, p c) :
    ∀ c ∈ writeFields style depth fields, p c := by
  induction fields with
  | nil => nofun
  | cons field rest ih =>
      obtain ⟨hvalue, hrest⟩ := List.forall_mem_cons.mp h
      have hname : ∀ c ∈ writeString field.1, p c := fun c hc =>
        hplain c (printable_writeString field.1 c hc)
      simp only [writeFields, List.forall_mem_append, List.forall_mem_cons, List.cons_append,
        and_assoc]
      exact ⟨hplain ',' (by decide), hbreak depth, hname, hplain ':' (by decide), hcolon,
        hvalue depth, ih hrest⟩

include hplain hcolon hbreak in
/-- What is written consists of characters that are no controls and of the blanks of the style. -/
theorem forall_mem_write (v : Json Int) (depth : Nat) : ∀ c ∈ write style depth v, p c := by
  have hchars : ∀ {cs : List Char}, (∀ c ∈ cs, Printable c) → ∀ c ∈ cs, p c := fun h c hc =>
    hplain c (h c hc)
  have hword : ∀ cs : List Char, cs.all (decide <| Printable ·) = true → ∀ c ∈ cs, p c :=
    fun _ h => hchars fun c hc => of_decide_eq_true (List.all_eq_true.mp h c hc)
  induction v using Json.induct generalizing depth with
  | null => exact hword ['n', 'u', 'l', 'l'] (by decide)
  | bool b => cases b with
    | true => exact hword ['t', 'r', 'u', 'e'] (by decide)
    | false => exact hword ['f', 'a', 'l', 's', 'e'] (by decide)
  | number z => exact hchars (printable_writeInt z)
  | string s => exact hchars (printable_writeString s)
  | array items ih =>
      cases items with
      | nil => exact hword ['[', ']'] (by decide)
      | cons item rest =>
          obtain ⟨hitem, hrest⟩ := List.forall_mem_cons.mp ih
          have hmore := forall_mem_writeItems hplain hbreak (depth + 1) hrest
          simp only [write, List.forall_mem_append, List.forall_mem_cons, List.cons_append,
            and_assoc]
          exact ⟨hplain '[' (by decide), hbreak (depth + 1), hitem (depth + 1), hmore,
            hbreak depth, hplain ']' (by decide), nofun⟩
  | object fields ih =>
      cases fields with
      | nil => exact hword ['{', '}'] (by decide)
      | cons field rest =>
          obtain ⟨hvalue, hrest⟩ := List.forall_mem_cons.mp ih
          have hmore := forall_mem_writeFields hplain hcolon hbreak (depth + 1) hrest
          simp only [write, List.forall_mem_append, List.forall_mem_cons, List.cons_append,
            and_assoc]
          exact ⟨hplain '{' (by decide), hbreak (depth + 1),
            hchars (printable_writeString field.1), hplain ':' (by decide), hcolon,
            hvalue (depth + 1), hmore, hbreak depth, hplain '}' (by decide), nofun⟩

end

/-! ## Blanks outside strings -/

/-- A place in a text: outside strings, within one, or right behind a backslash within one. -/
inductive Place
  | outside
  | inside
  | escaped

/-- The text without the blanks and line feeds that lie outside strings. -/
def withoutBlanks : Place → List Char → List Char
  | _, [] => []
  | .outside, c :: rest =>
      if c = '"' then c :: withoutBlanks .inside rest
      else if c = ' ' ∨ c = '\n' then withoutBlanks .outside rest
      else c :: withoutBlanks .outside rest
  | .inside, c :: rest =>
      c :: withoutBlanks (if c = '\\' then .escaped else if c = '"' then .outside else .inside) rest
  | .escaped, c :: rest => c :: withoutBlanks .inside rest

/-- Outside of strings, spaces and line ends are dropped. -/
theorem withoutBlanks_blank {cs : List Char} (h : ∀ c ∈ cs, c = ' ' ∨ c = '\n')
    (rest : List Char) : withoutBlanks .outside (cs ++ rest) = withoutBlanks .outside rest := by
  induction cs with
  | nil => rfl
  | cons c cs ih =>
      obtain ⟨hc, hcs⟩ := List.forall_mem_cons.mp h
      have hquote : c ≠ '"' := by
        rintro rfl
        revert hc
        decide
      rw [List.cons_append, withoutBlanks, if_neg hquote, if_pos hc, ih hcs]

/-- Outside of strings, a character that is neither a quote nor a blank is kept. -/
theorem withoutBlanks_mark {c : Char} (h : c ≠ '"' ∧ c ≠ ' ' ∧ c ≠ '\n') (rest : List Char) :
    withoutBlanks .outside (c :: rest) = c :: withoutBlanks .outside rest := by
  have hkept : ¬ (c = ' ' ∨ c = '\n') := not_or.mpr h.2
  rw [withoutBlanks, if_neg h.1, if_neg hkept]

/-- Outside of strings, characters that are neither quotes nor blanks are all kept. -/
theorem withoutBlanks_kept (cs : List Char) (h : ∀ c ∈ cs, c ≠ '"' ∧ c ≠ ' ' ∧ c ≠ '\n')
    (rest : List Char) :
    withoutBlanks .outside (cs ++ rest) = cs ++ withoutBlanks .outside rest := by
  induction cs with
  | nil => rfl
  | cons c cs ih =>
      obtain ⟨hc, hcs⟩ := List.forall_mem_cons.mp h
      rw [List.cons_append, withoutBlanks_mark hc, ih hcs, List.cons_append]

/-- A word without quotes and blanks is kept, as can be tried on its characters. -/
theorem withoutBlanks_word (cs : List Char)
    (h : cs.all (fun c => c ≠ '"' ∧ c ≠ ' ' ∧ c ≠ '\n') = true) (rest : List Char) :
    withoutBlanks .outside (cs ++ rest) = cs ++ withoutBlanks .outside rest :=
  withoutBlanks_kept cs (fun c hc => of_decide_eq_true (List.all_eq_true.mp h c hc)) rest

/-- A number is kept as it is written. -/
theorem withoutBlanks_writeInt (z : Int) (rest : List Char) :
    withoutBlanks .outside (writeInt z ++ rest) = writeInt z ++ withoutBlanks .outside rest := by
  refine withoutBlanks_kept _ (fun c hc => ?_) rest
  have hne : ∀ {d : Char}, d ≠ '-' → d.isDigit = false → c ≠ d :=
    ne_of_numberHead (mem_writeInt c hc)
  exact ⟨hne (by decide) (by decide), hne (by decide) (by decide), hne (by decide) (by decide)⟩

/-- Within a string, whatever neither ends it nor escapes anything is kept. -/
theorem withoutBlanks_inside {cs : List Char} (h : ∀ c ∈ cs, c ≠ '"' ∧ c ≠ '\\')
    (rest : List Char) :
    withoutBlanks .inside (cs ++ rest) = cs ++ withoutBlanks .inside rest := by
  induction cs with
  | nil => rfl
  | cons c cs ih =>
      obtain ⟨⟨hquote, hslash⟩, hcs⟩ := List.forall_mem_cons.mp h
      rw [List.cons_append, withoutBlanks, if_neg hslash, if_neg hquote, ih hcs, List.cons_append]

/-- Within a string, an escape is kept with the character behind it. -/
theorem withoutBlanks_escape (c : Char) (rest : List Char) :
    withoutBlanks .inside ('\\' :: c :: rest) = '\\' :: c :: withoutBlanks .inside rest := by
  rw [withoutBlanks, if_pos rfl, withoutBlanks]

/-- Within a string, the escape of a unit is kept. -/
theorem withoutBlanks_writeUnit {n : Nat} (h : n < 0x10000) (rest : List Char) :
    withoutBlanks .inside (writeUnit n ++ rest) = writeUnit n ++ withoutBlanks .inside rest := by
  have hdigit : ∀ n < 16, n.digitChar ≠ '"' ∧ n.digitChar ≠ '\\' := by decide
  have hdigits : ∀ c ∈ Text.Hex.filled 4 n, c ≠ '"' ∧ c ≠ '\\' := by
    rw [filled_four h]
    simp only [List.forall_mem_cons]
    exact ⟨hdigit _ (by omega), hdigit _ (by omega), hdigit _ (by omega), hdigit _ (by omega),
      nofun⟩
  rw [writeUnit, List.cons_append, List.cons_append, withoutBlanks_escape,
    withoutBlanks_inside hdigits]
  rfl

/-- Within a string, a character is kept in whatever way it is written. -/
theorem Written.withoutBlanks_append {c : Char} {cs : List Char} (h : Written c cs)
    (rest : List Char) :
    withoutBlanks .inside (cs ++ rest) = cs ++ withoutBlanks .inside rest := by
  cases h with
  | plain hquote hslash _ =>
      exact withoutBlanks_inside (List.forall_mem_singleton.mpr ⟨hquote, hslash⟩) rest
  | letter h => exact withoutBlanks_escape _ rest
  | unit h => exact withoutBlanks_writeUnit h rest
  | pair hhigh hlow _ =>
      rw [List.append_assoc, withoutBlanks_writeUnit (by omega), withoutBlanks_writeUnit (by omega),
        List.append_assoc]

/-- A string is kept with all its blanks, and behind it blanks are dropped again. -/
theorem withoutBlanks_writeString (s : String) (rest : List Char) :
    withoutBlanks .outside (writeString s ++ rest) =
      writeString s ++ withoutBlanks .outside rest := by
  have hchars : ∀ cs : List Char, withoutBlanks .inside (cs.flatMap writeChar ++ '"' :: rest) =
      cs.flatMap writeChar ++ '"' :: withoutBlanks .outside rest := by
    intro cs
    induction cs with
    | nil => rfl
    | cons c cs ih =>
        rw [List.flatMap_cons, List.append_assoc, (written_writeChar c).withoutBlanks_append, ih,
          List.append_assoc]
  rw [writeString, List.append_assoc, List.cons_append, List.singleton_append, withoutBlanks,
    if_pos rfl, hchars]
  simp

section

variable {style : Style} (hstyle : style.Airy)

include hstyle

/-- If the items come out compact without their blanks, so does a list of them. -/
theorem withoutBlanks_writeItems {items : List (Json Int)} {depth other : Nat}
    (h : ∀ item ∈ items, ∀ rest, withoutBlanks .outside (write style depth item ++ rest) =
      write .compact other item ++ withoutBlanks .outside rest) (rest : List Char) :
    withoutBlanks .outside (writeItems style depth items ++ rest) =
      writeItems .compact other items ++ withoutBlanks .outside rest := by
  induction items with
  | nil => rfl
  | cons item more ih =>
      obtain ⟨hitem, hmore⟩ := List.forall_mem_cons.mp h
      simp (disch := decide) only [writeItems, List.append_assoc, List.cons_append,
        withoutBlanks_mark, withoutBlanks_blank (hstyle.lineBreak depth), hitem, ih hmore]
      rfl

/-- If the values come out compact without their blanks, so do fields with them. -/
theorem withoutBlanks_writeFields {fields : List (String × Json Int)} {depth other : Nat}
    (h : ∀ field ∈ fields, ∀ rest, withoutBlanks .outside (write style depth field.2 ++ rest) =
      write .compact other field.2 ++ withoutBlanks .outside rest) (rest : List Char) :
    withoutBlanks .outside (writeFields style depth fields ++ rest) =
      writeFields .compact other fields ++ withoutBlanks .outside rest := by
  induction fields with
  | nil => rfl
  | cons field more ih =>
      obtain ⟨hvalue, hmore⟩ := List.forall_mem_cons.mp h
      simp (disch := decide) only [writeFields, List.append_assoc, List.cons_append,
        withoutBlanks_mark, withoutBlanks_blank (hstyle.lineBreak depth),
        withoutBlanks_blank hstyle.afterColon, withoutBlanks_writeString, hvalue, ih hmore]
      rfl

/-- Without the blanks outside strings, what is written in any style is what the compact one
writes. -/
theorem withoutBlanks_write (v : Json Int) (depth other : Nat) (rest : List Char) :
    withoutBlanks .outside (write style depth v ++ rest) =
      write .compact other v ++ withoutBlanks .outside rest := by
  induction v using Json.induct generalizing depth other rest with
  | null => exact withoutBlanks_word ['n', 'u', 'l', 'l'] (by decide) rest
  | bool b => cases b with
    | true => exact withoutBlanks_word ['t', 'r', 'u', 'e'] (by decide) rest
    | false => exact withoutBlanks_word ['f', 'a', 'l', 's', 'e'] (by decide) rest
  | number z => exact withoutBlanks_writeInt z rest
  | string s => exact withoutBlanks_writeString s rest
  | array items ih =>
      cases items with
      | nil => exact withoutBlanks_word ['[', ']'] (by decide) rest
      | cons item more =>
          obtain ⟨hitem, hmore⟩ := List.forall_mem_cons.mp ih
          have hitems := withoutBlanks_writeItems hstyle fun item hitem rest =>
            hmore item hitem (depth + 1) (other + 1) rest
          simp (disch := decide) only [write, List.append_assoc, List.cons_append, List.nil_append,
            withoutBlanks_mark, withoutBlanks_blank (hstyle.lineBreak _),
            hitem (depth + 1) (other + 1), hitems]
          rfl
  | object fields ih =>
      cases fields with
      | nil => exact withoutBlanks_word ['{', '}'] (by decide) rest
      | cons field more =>
          obtain ⟨hvalue, hmore⟩ := List.forall_mem_cons.mp ih
          have hfields := withoutBlanks_writeFields hstyle fun field hfield rest =>
            hmore field hfield (depth + 1) (other + 1) rest
          simp (disch := decide) only [write, List.append_assoc, List.cons_append, List.nil_append,
            withoutBlanks_mark, withoutBlanks_blank (hstyle.lineBreak _),
            withoutBlanks_blank hstyle.afterColon, withoutBlanks_writeString,
            hvalue (depth + 1) (other + 1), hfields]
          rfl

end

/-! ## Texts -/

/-- A spelled number ends with a digit. -/
theorem SpelledInt.last {z : Int} {cs : List Char} (h : SpelledInt z cs) :
    ∃ ds c, cs = ds ++ [c] ∧ c.isDigit = true := by
  have hnat : ∀ {n : Nat} {cs : List Char}, SpelledNat n cs →
      ∃ ds c, cs = ds ++ [c] ∧ c.isDigit = true := fun {n cs} h => by
    cases h with
    | @digits c cs hdigits =>
        have hne : c :: cs ≠ [] := List.cons_ne_nil c cs
        exact ⟨_, _, (List.dropLast_append_getLast hne).symm, hdigits _ (List.getLast_mem hne)⟩
  cases h with
  | plain h => exact hnat h
  | minus h =>
      obtain ⟨ds, c, rfl, hc⟩ := hnat h
      exact ⟨'-' :: ds, c, rfl, hc⟩

/-- A value does not end with a line feed. -/
theorem Spells.last {v : Json Int} {cs : List Char} (h : Spells (.value v) cs) :
    ∃ ds c, cs = ds ++ [c] ∧ c ≠ '\n' := by
  cases h with
  | null => exact ⟨['n', 'u', 'l'], 'l', rfl, by decide⟩
  | boolTrue => exact ⟨['t', 'r', 'u'], 'e', rfl, by decide⟩
  | boolFalse => exact ⟨['f', 'a', 'l', 's'], 'e', rfl, by decide⟩
  | number h =>
      obtain ⟨ds, c, rfl, hc⟩ := h.last
      exact ⟨ds, c, rfl, ne_of_isDigit hc (by decide)⟩
  | string h =>
      cases h
      exact ⟨_, _, rfl, by decide⟩
  | emptyArray => exact ⟨_, _, rfl, by decide⟩
  | array => exact ⟨_, _, rfl, by decide⟩
  | emptyObject => exact ⟨_, _, rfl, by decide⟩
  | object => exact ⟨_, _, rfl, by decide⟩

/-- The spread text is the written value and a line end. -/
theorem toList_text_spread (v : Json Int) :
    (v.text true).toList = write .spread 0 v.sortFields ++ ['\n'] := by
  simp [text, spreadText]

/-- The compact text is the written value alone. -/
theorem toList_text_compact (v : Json Int) :
    (v.text false).toList = write .compact 0 v.sortFields := by
  simp [text, compactText]

/-- The text of a value is one of the value with its fields in order. -/
theorem isText_text (v : Json Int) (pretty : Bool) :
    IsText v.sortFields (v.text pretty).toList := by
  cases pretty with
  | false =>
      refine ⟨[], write .compact 0 v.sortFields, [], blank_nil, spells_write compact_airy _ 0,
        blank_nil, ?_⟩
      rw [toList_text_compact, List.append_nil, List.nil_append]
  | true =>
      refine ⟨[], write .spread 0 v.sortFields, ['\n'], blank_nil, spells_write spread_airy _ 0,
        blank_of_airy (List.forall_mem_singleton.mpr (Or.inr rfl)), ?_⟩
      rw [toList_text_spread, List.nil_append]

/-- The text of a value is read as the value with its fields in order. -/
theorem ofText?_text (v : Json Int) (pretty : Bool) :
    ofText? (v.text pretty) = some (v.sortFields.map .integer) :=
  (isText_text v pretty).ofChars?

/-- Values with the same text differ in the order of fields alone. -/
theorem rearranged_of_text_eq {v w : Json Int} {pretty other : Bool}
    (h : v.text pretty = w.text other) : Rearranged v w := by
  have hread := ofText?_text v pretty
  rw [h, ofText?_text, Option.some_inj] at hread
  have hback : Function.LeftInverse (fun n => match n with | .integer z => z | _ => 0)
      Number.integer := fun _ => rfl
  have hsorted := (map_leftInverse hback).injective hread
  have hv := rearranged_sortFields v
  rw [← hsorted] at hv
  exact hv.trans (rearranged_sortFields w).symm

/-- **Texts are faithful.**  In either style the text of a value is JSON for the value with its
fields in order, and it is read as that value, which differs from the given one in the order of
fields alone; so values with the same text differ in nothing else.  Distinct names are then in
increasing order, code point by code point.  The compact text holds printable ASCII characters only,
the spread one those and line feeds, exactly one of them at its end.  Without the blanks and line
feeds outside strings, the spread text is the compact one. -/
theorem text_faithful :
    (∀ (v : Json Int) (pretty : Bool),
      IsText v.sortFields (v.text pretty).toList ∧
      ofText? (v.text pretty) = some (v.sortFields.map .integer) ∧ Rearranged v v.sortFields) ∧
    (∀ (v w : Json Int) (pretty other : Bool), v.text pretty = w.text other → Rearranged v w) ∧
    (∀ v : Json Int, EveryRecord List.Nodup v → EveryRecord Ascending v.sortFields) ∧
    (∀ v : Json Int, ∀ c ∈ (v.text false).toList, Printable c) ∧
    (∀ v : Json Int, (∀ c ∈ (v.text true).toList, Printable c ∨ c = '\n') ∧
      ∃ cs c, (v.text true).toList = cs ++ [c, '\n'] ∧ c ≠ '\n') ∧
    ∀ v : Json Int, withoutBlanks .outside (v.text true).toList = (v.text false).toList := by
  refine ⟨fun v pretty => ⟨isText_text v pretty, ofText?_text v pretty, rearranged_sortFields v⟩,
    fun _ _ _ _ => rearranged_of_text_eq, fun _ => EveryRecord.ascending, fun v => ?_,
    fun v => ⟨?_, ?_⟩, fun v => ?_⟩
  · rw [toList_text_compact]
    exact forall_mem_write (fun _ h => h) (List.forall_mem_nil Printable)
      (fun _ => List.forall_mem_nil Printable) _ _
  · have hairy : ∀ {c : Char}, c = ' ' ∨ c = '\n' → Printable c ∨ c = '\n' := by
      rintro c (rfl | rfl) <;> decide
    rw [toList_text_spread, List.forall_mem_append]
    exact ⟨forall_mem_write (fun _ => Or.inl) (fun c hc => hairy (spread_airy.afterColon c hc))
      (fun depth c hc => hairy (spread_airy.lineBreak depth c hc)) _ _,
      List.forall_mem_singleton.mpr (Or.inr rfl)⟩
  · obtain ⟨cs, c, hwrite, hc⟩ := (spells_write spread_airy v.sortFields 0).last
    exact ⟨cs, c, by rw [toList_text_spread, hwrite]; simp, hc⟩
  · rw [toList_text_spread, toList_text_compact, withoutBlanks_write spread_airy _ 0 0]
    exact List.append_nil _

/-- Two fields that are out of order are written in order. -/
theorem ascending_pair : EveryRecord Ascending
    (sortFields (.object [("mask", .number (-1)), ("encoding", .null)] : Json Int)) := by
  have hnodup : EveryRecord List.Nodup
      (.object [("mask", .number (-1)), ("encoding", .null)] : Json Int) := by
    refine .object (by decide) ?_
    simp only [List.forall_mem_cons]
    exact ⟨.number _, .null, nofun⟩
  exact text_faithful.2.2.1 _ hnodup

end Json

end WordAtlas
