import WordAtlas.Proofs.BlanksAndCase
import WordAtlas.Proofs.NumeralGrammar

/-!
# Word numerals

A text names a word exactly when it spells the number of the word, and the two ways in which it may
fail to do so are told apart by whether it spells a number at all.  Every number has spellings in
every base up to sixteen (`Numeral.exists_digits_toDigits`), in which letters may be of either case,
and blanks and a plus sign may be put around them.

The main statement is `Word.ofText_reads_numerals`.  The separators U+001C to U+001F are blanks of
free text, and they do not count as blanks around a numeral (`Word.ofText_separator_wide_digit`).
-/

namespace WordAtlas

namespace Numeral

/-! ## Renderings -/

/-- A digit has the same value in either case. -/
theorem digitValue?_toUpper (c : Char) : digitValue? c.toUpper = digitValue? c := by
  by_cases hc : c.toNat < 128
  · have hupper : c.toUpper.toNat < 128 :=
      Text.forall_ascii (p := fun c => c.toUpper.toNat < 128) (by decide) hc
    rw [digitValue?_of_ascii hc, digitValue?_of_ascii hupper]
    exact Text.forall_ascii (p := fun c => Text.Hex.value? c.toUpper = Text.Hex.value? c)
      (by decide) hc
  · rw [Text.toUpper_of_not_ascii hc]

/-- In either case only the underscore is an underscore. -/
theorem toUpper_eq_underscore_iff {c : Char} : c.toUpper = '_' ↔ c = '_' := by
  by_cases hc : c.toNat < 128
  · exact Text.forall_ascii (p := fun c => c.toUpper = '_' ↔ c = '_') (by decide) hc
  · rw [Text.toUpper_of_not_ascii hc]

/-- Digits may be written in either case. -/
theorem Digits.recased {base : Nat} {ns : List Nat} {cs ds : List Char} (h : Digits base ns cs)
    (hsame : ds.map Char.toUpper = cs.map Char.toUpper) : Digits base ns ds := by
  have hvalue : ∀ {c d : Char} {n : Nat}, d.toUpper = c.toUpper → digitValue? c = some n →
      digitValue? d = some n := fun hsame hc => by
    rw [← digitValue?_toUpper, hsame, digitValue?_toUpper, hc]
  induction h generalizing ds with
  | last hc hn =>
      obtain ⟨d, ds, rfl, hd, hds⟩ := List.map_eq_cons_iff.mp hsame
      obtain rfl := List.map_eq_nil_iff.mp hds
      exact .last (hvalue hd hc) hn
  | next hc hn _ ih =>
      obtain ⟨d, ds, rfl, hd, hds⟩ := List.map_eq_cons_iff.mp hsame
      exact .next (hvalue hd hc) hn (ih hds)
  | spaced hc hn _ ih =>
      obtain ⟨d, others, rfl, hd, hothers⟩ := List.map_eq_cons_iff.mp hsame
      obtain ⟨u, ds, rfl, hu, hds⟩ := List.map_eq_cons_iff.mp hothers
      obtain rfl := toUpper_eq_underscore_iff.mp (hu.trans (by decide))
      exact .spaced (hvalue hd hc) hn (ih hds)

/-- A digit behind digits is the last of them. -/
theorem Digits.concat {base m : Nat} {ns : List Nat} {c : Char} {cs : List Char}
    (h : Digits base ns cs) (hc : digitValue? c = some m) (hm : m < base) :
    Digits base (ns ++ [m]) (cs ++ [c]) := by
  induction h with
  | last hd hn => exact .next hd hn (.last hc hm)
  | next hd hn _ ih => exact .next hd hn ih
  | spaced hd hn _ ih => exact .spaced hd hn ih

/-- The digit that is written for a number below sixteen has the number as its value. -/
theorem digitValue?_digitChar {n : Nat} (h : n < 16) : digitValue? n.digitChar = some n := by
  have hall : ∀ n < 16, digitValue? n.digitChar = some n := by decide
  exact hall n h

/-- A number is spelled by its digits in any base up to sixteen, none too many in front. -/
theorem exists_digits_toDigits {base : Nat} (hbase : 1 < base) (hletters : base ≤ 16) (n : Nat) :
    ∃ ns, Digits base ns (Nat.toDigits base n) ∧ n = Nat.ofDigits base ns.reverse ∧
      ns.length = (Nat.toDigits base n).length ∧ (ns.head? = some 0 → n = 0) := by
  induction n using Nat.strongRecOn with
  | ind n ih =>
      by_cases hsmall : n < base
      · refine ⟨[n], ?_, ?_, ?_, fun h => Option.some.inj h⟩
        · rw [Nat.toDigits_of_lt_base hsmall]
          exact .last (digitValue?_digitChar (by omega)) hsmall
        · simp
        · rw [Nat.toDigits_of_lt_base hsmall]
          rfl
      · have hle : base ≤ n := Nat.le_of_not_lt hsmall
        have hlast : n % base < base := Nat.mod_lt n (by omega)
        obtain ⟨ns, hdigits, hvalue, hlength, hhead⟩ :=
          ih (n / base) (Nat.div_lt_self (by omega) hbase)
        refine ⟨ns ++ [n % base], ?_, ?_, ?_, ?_⟩
        · rw [Nat.toDigits_of_base_le hbase hle]
          exact hdigits.concat (digitValue?_digitChar (by omega)) hlast
        · rw [List.reverse_concat, Nat.ofDigits_cons, ← hvalue]
          exact (Nat.mod_add_div n base).symm
        · rw [Nat.toDigits_of_base_le hbase hle, List.length_append, List.length_append, hlength]
          rfl
        · -- the quotient is not zero, so its digits do not begin with one
          intro hzero
          have hquotient : 0 < n / base := Nat.div_pos hle (by omega)
          cases ns with
          | nil => nomatch hdigits
          | cons m ns =>
              have := hhead hzero
              omega

/-- Blanks may be put around a numeral. -/
theorem Signed.spells_framed {z : Int} {before cs after : List Char} (h : Signed z cs)
    (hbefore : ∀ c ∈ before, isOuterBlank c = true) (hafter : ∀ c ∈ after, isOuterBlank c = true) :
    Spells (before ++ cs ++ after) z := by
  rw [Spells, Text.trimBoth_framed hbefore hafter
    (fun c hc => (h.inner c (List.mem_of_mem_head? hc)).1)
    (fun c hc => (h.inner c (List.mem_of_mem_getLast? hc)).1)]
  exact h

end Numeral

namespace Word

open Numeral

/-- A text that is read as a number is a word if the number is one, and is out of range
otherwise. -/
theorem ofText_of_value? {text : String} {z : Int} (h : value? text.toList = some z) :
    ofText text = (ofInt z).mapError fun _ => .outOfRange text := by
  rw [ofText, h]
  cases hz : ofInt z <;> simp only [hz] <;> rfl

/-- A text that is read as no number is no numeral. -/
theorem ofText_of_value?_none {text : String} (h : value? text.toList = none) :
    ofText text = .error (.notNumeral text) := by
  rw [ofText, h]

/-- A text names a word if it spells the number of the word. -/
theorem ofText_eq_ok_iff {text : String} {w : Word} :
    ofText text = .ok w ↔ Spells text.toList w.val := by
  rw [← value?_eq_some_iff]
  cases hvalue : value? text.toList with
  | none =>
      rw [ofText_of_value?_none hvalue]
      exact iff_of_false nofun nofun
  | some z =>
      rw [ofText_of_value? hvalue, Option.some_inj, ← ofInt_eq_ok_iff]
      cases ofInt z <;> simp [Except.mapError]

/-- A text is reported as out of range if it spells a number that no word has. -/
theorem ofText_eq_outOfRange_iff {text : String} :
    ofText text = .error (.outOfRange text) ↔
      ∃ z, Spells text.toList z ∧ ¬ (0 ≤ z ∧ z < 65536) := by
  simp only [← value?_eq_some_iff]
  cases hvalue : value? text.toList with
  | none =>
      rw [ofText_of_value?_none hvalue]
      exact iff_of_false nofun nofun
  | some z =>
      simp only [ofText_of_value? hvalue, Option.some_inj, exists_eq_left']
      cases hword : ofInt z with
      | ok v =>
          obtain rfl := ofInt_eq_ok_iff.mp hword
          have := v.isLt
          refine iff_of_false nofun fun hrange => hrange ⟨?_, ?_⟩ <;> omega
      | error e => exact iff_of_true rfl (ofInt_eq_error_iff.mp hword).2

/-- A text is reported as no number if it spells none. -/
theorem ofText_eq_notNumeral_iff {text : String} :
    ofText text = .error (.notNumeral text) ↔ ∀ z, ¬ Spells text.toList z := by
  simp only [← value?_eq_some_iff]
  cases hvalue : value? text.toList with
  | none => exact iff_of_true (ofText_of_value?_none hvalue) nofun
  | some z =>
      rw [ofText_of_value? hvalue]
      refine iff_of_false ?_ fun h => h z rfl
      cases ofInt z <;> nofun

/-- The decimal digits of a word are a numeral for it. -/
theorem unsigned_toDigits (w : Word) : Unsigned w.val (Nat.toDigits 10 w.val) := by
  obtain ⟨ns, hdigits, hvalue, hlength, hhead⟩ :=
    exists_digits_toDigits (by decide : 1 < 10) (by decide) w.val
  refine .decimal hvalue ?_ ?_ hdigits
  · have hfive : (Nat.toDigits 10 w.val).length ≤ 5 :=
      (Nat.length_toDigits_le_iff (by decide) (by decide)).mpr (Nat.lt_trans w.isLt (by decide))
    rw [hlength]
    exact Nat.le_trans hfive (by decide)
  · intro hzero
    rw [hhead hzero] at hvalue
    exact ofDigits_reverse_eq_zero_iff.mp hvalue.symm

/-- Behind a zero and the mark of a base, the digits of a word in that base, in either case, are a
numeral for it. -/
theorem unsigned_marked_toDigits (w : Word) {mark : Char} {base : Nat} {ds : List Char}
    (hmark : (mark, base) ∈ marks)
    (hsame : ds.map Char.toUpper = (Nat.toDigits base w.val).map Char.toUpper) :
    Unsigned w.val ('0' :: mark :: ds) := by
  have hbase : ∀ m ∈ marks, 1 < m.2 ∧ m.2 ≤ 16 := by decide
  obtain ⟨ns, hdigits, hvalue, -, -⟩ :=
    exists_digits_toDigits (hbase _ hmark).1 (hbase _ hmark).2 w.val
  exact .marked hvalue (by decide) hmark (hdigits.recased hsame)

/-- **Word numerals.**  A text names a word exactly when, the blanks around it aside, it is a
numeral for the number of the word.  It is reported as out of range exactly when it is a numeral for
a number that no word has, and as no number exactly when it is no numeral.  So every numeral for a
word names it, with or without a plus sign in front and whatever blanks stand around it; such
numerals are the decimal digits of the word, and behind a zero and the mark of a base its digits in
that base, in either case. -/
theorem ofText_reads_numerals :
    (∀ (text : String) (w : Word),
      ofText text = .ok w ↔ Signed w.val (Text.trimBoth isOuterBlank text.toList)) ∧
    (∀ text : String, ofText text = .error (.outOfRange text) ↔
      ∃ z, Signed z (Text.trimBoth isOuterBlank text.toList) ∧ ¬ (0 ≤ z ∧ z ≤ 0xFFFF)) ∧
    (∀ text : String, ofText text = .error (.notNumeral text) ↔
      ∀ z, ¬ Signed z (Text.trimBoth isOuterBlank text.toList)) ∧
    (∀ text : String,
      (Misnamed.outOfRange text).message = "instruction word out of range: " ++ text ∧
      (Misnamed.notNumeral text).message = "not a number: " ++ Text.Quoted.ofString text) ∧
    (∀ (w : Word) (before cs after : List Char), Unsigned w.val cs →
      (∀ c ∈ before ++ after, isOuterBlank c = true) →
      ofText (String.ofList (before ++ cs ++ after)) = .ok w ∧
      ofText (String.ofList (before ++ ('+' :: cs) ++ after)) = .ok w) ∧
    (∀ w : Word, Unsigned w.val (Nat.toDigits 10 w.val)) ∧
    ∀ (w : Word) (mark : Char) (base : Nat) (ds : List Char), (mark, base) ∈ marks →
      ds.map Char.toUpper = (Nat.toDigits base w.val).map Char.toUpper →
      Unsigned w.val ('0' :: mark :: ds) := by
  refine ⟨fun _ _ => ofText_eq_ok_iff, fun _ => ?_, fun _ => ofText_eq_notNumeral_iff,
    fun _ => ⟨rfl, rfl⟩, ?_, unsigned_toDigits, fun w _ _ _ => unsigned_marked_toDigits w⟩
  · rw [ofText_eq_outOfRange_iff]
    have hrange : ∀ z : Int, z < 65536 ↔ z ≤ 0xFFFF := fun z => by omega
    simp only [Spells, hrange]
  · intro w before cs after hcs hblank
    have hbefore : ∀ c ∈ before, isOuterBlank c = true := fun c hc =>
      hblank c (List.mem_append_left _ hc)
    have hafter : ∀ c ∈ after, isOuterBlank c = true := fun c hc =>
      hblank c (List.mem_append_right _ hc)
    rw [ofText_eq_ok_iff, ofText_eq_ok_iff, String.toList_ofList, String.toList_ofList]
    exact ⟨(Signed.plain hcs).spells_framed hbefore hafter,
      (Signed.plus hcs).spells_framed hbefore hafter⟩

/-- Full-width digits, an underscore and blanks of two kinds do not keep a text from its word. -/
theorem ofText_framed_numeral :
    Unsigned (245 : Word).val ['0', 'X', '_', 'f', '５'] ∧
      ofText "\u2003+0X_f５ " = .ok 245 := by
  have hdigits : Digits 16 [15, 5] ['f', '５'] :=
    .next (by decide) (by decide) (.last (by decide) (by decide))
  have hcs : Unsigned (245 : Word).val ['0', 'X', '_', 'f', '５'] :=
    .spaced (by decide) (by decide) (by decide) hdigits
  have hframed := ofText_reads_numerals.2.2.2.2.1 245 ['\u2003'] ['0', 'X', '_', 'f', '５'] [' '] hcs
    (List.all_eq_true.mp (by decide))
  exact ⟨hcs, hframed.2⟩

/-- The blanks that a text may have around a numeral if the space and the controls from tab to
carriage return are all there are in an ASCII text, and every blank counts in any other. -/
def framingBlank (cs : List Char) : Char → Bool :=
  if cs.all (·.toNat < 128) then Text.isPlainBlank else Text.isBlank

/-- A separator is a blank of free text, and it is none beside a numeral even where the text goes
beyond ASCII. -/
theorem ofText_separator_wide_digit :
    Signed 5 (Text.trimBoth (framingBlank ['\x1c', '５']) ['\x1c', '５']) ∧
      ofText "\x1c５" = .error (.notNumeral "\x1c５") := by
  constructor
  · have htrimmed : Text.trimBoth (framingBlank ['\x1c', '５']) ['\x1c', '５'] = ['５'] := by decide
    have hdigits : Digits 10 [5] ['５'] := .last (by decide) (by decide)
    rw [htrimmed]
    exact .plain (.decimal (by decide) (by decide) (by decide) hdigits)
  · decide

end Word

end WordAtlas
