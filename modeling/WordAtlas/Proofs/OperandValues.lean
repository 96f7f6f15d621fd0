import Mathlib.Data.List.Basic
import Mathlib.Data.Nat.Digits.Defs
import WordAtlas.Proofs.MemoryImage

/-!
# Operand values

The value of operand words is put together by shifting what there is by sixteen bits and joining the
next word to it.  The shifted number and the word have no bit in common, so joining adds them
(`Source.either_mul_two_pow`), and the value is the number whose digits to the base 65536 are the
words (`Instruction.valueOfWords_val`).  What is known of digits then holds of operand words: their
value is bounded, each of them can be cut out of it again, and it tells lists of one length apart.

The bytes of words denote the same number.  Where an instruction lies in a buffer, the values of its
operands are therefore what the bytes behind its instruction word denote.  All of it together is the
main statement, `Source.operand_values_are_positional`.
-/

namespace WordAtlas

namespace Word

/-! ## Words as digits -/

/-- The digits that some words are, the least significant one first. -/
def digits (words : List Word) : List Nat :=
  (words.map Fin.val).reverse

/-- There is a digit for each word. -/
@[simp] theorem length_digits (words : List Word) : (digits words).length = words.length := by
  rw [digits, List.length_reverse, List.length_map]

/-- The digits of words behind others are the less significant ones. -/
theorem digits_append (words more : List Word) :
    digits (words ++ more) = digits more ++ digits words := by
  rw [digits, List.map_append, List.reverse_append]
  rfl

/-- Words are told apart by their digits. -/
theorem digits_injective : Function.Injective digits :=
  List.reverse_injective.comp (List.map_injective_iff.mpr fun _ _ => Fin.ext)

/-- The digits are digits to the base 65536. -/
theorem lt_of_mem_digits {words : List Word} : ∀ n ∈ digits words, n < 65536 := by
  intro n hn
  obtain ⟨w, -, rfl⟩ := List.mem_map.mp (List.mem_reverse.mp hn)
  exact w.isLt

/-- The value of words is the number with their digits. -/
theorem valueOf_eq_ofDigits (words : List Word) :
    valueOf words = Nat.ofDigits 65536 (digits words) := by
  have hstep : (fun (n : Nat) (w : Word) => 65536 * n + w.val) =
      fun n w => w.val + 65536 * n := funext₂ fun n w => Nat.add_comm _ _
  rw [Nat.ofDigits_eq_foldr, digits, ← List.foldl_eq_foldr_reverse, List.foldl_map, valueOf, hstep]
  rfl

/-- The value of words has room in as many digits. -/
theorem valueOf_lt (words : List Word) : valueOf words < 65536 ^ words.length := by
  rw [valueOf_eq_ofDigits, ← length_digits]
  exact Nat.ofDigits_lt_base_pow_length (by decide) lt_of_mem_digits

/-- Words behind others move the value of these up. -/
theorem valueOf_append (words more : List Word) :
    valueOf (words ++ more) = valueOf words * 65536 ^ more.length + valueOf more := by
  rw [valueOf_eq_ofDigits, digits_append, Nat.ofDigits_append, ← valueOf_eq_ofDigits,
    ← valueOf_eq_ofDigits, length_digits, Nat.add_comm, Nat.mul_comm]

/-- Words of one number and one value are the same. -/
theorem eq_of_valueOf_eq {words others : List Word} (hlength : words.length = others.length)
    (h : valueOf words = valueOf others) : words = others := by
  rw [valueOf_eq_ofDigits, valueOf_eq_ofDigits] at h
  have hcount : (digits words).length = (digits others).length := by
    rw [length_digits, length_digits, hlength]
  exact digits_injective
    (Nat.ofDigits_inj_of_len_eq (by decide) hcount lt_of_mem_digits lt_of_mem_digits h)

/-- A word is the last digit that is left when the words behind it are taken off the value. -/
theorem valueOf_div_mod {words : List Word} {k : Nat} (h : k < words.length) :
    valueOf words / 65536 ^ (words.length - 1 - k) % 65536 = words[k].val := by
  have hplace : words.length - 1 - k < (digits words).length := by
    rw [length_digits]
    omega
  have hdigit : (digits words)[words.length - 1 - k] = words[k].val := by
    have hback : words.length - 1 - (words.length - 1 - k) = k := by omega
    simp [digits, List.getElem_reverse, hback]
  rw [valueOf_eq_ofDigits, Nat.ofDigits_div_pow_eq_ofDigits_drop _ (by decide) _ lt_of_mem_digits,
    List.drop_eq_getElem_cons hplace, hdigit, Nat.ofDigits_cons, Nat.add_mul_mod_self_left,
    Nat.mod_eq_of_lt words[k].isLt]

end Word

/-! ## The value of operand words -/

/-- A word has sixteen bits. -/
theorem two_pow_sixteen_mul (count : Nat) : 2 ^ (16 * count) = 65536 ^ count := by
  rw [pow_mul]
  norm_num

namespace Instruction

/-- Shifting and joining makes the number whose digits are the words. -/
theorem valueOfWords_val (words : List Word) :
    valueOfWords (words.map fun w => (w.val : Int)) = (Word.valueOf words : Int) := by
  have key : ∀ n : Nat, (words.map fun w => (w.val : Int)).foldl
      (fun value word => Bits.either (value * 65536) word) (n : Int) =
        ((words.foldl (fun n w => 65536 * n + w.val) n : Nat) : Int) := by
    induction words with
    | nil => exact fun _ => rfl
    | cons w rest ih =>
        intro n
        have hjoin : Bits.either ((n : Int) * 65536) (w.val : Int) =
            ((65536 * n + w.val : Nat) : Int) := by
          rw [Nat.mul_comm 65536]
          exact Source.either_mul_two_pow n (show w.val < 2 ^ 16 from w.isLt)
        rw [List.map_cons, List.foldl_cons, List.foldl_cons, hjoin, ih]
  exact key 0

/-- The value of words is what their bytes denote. -/
theorem valueOfWords_eq_bigEndian (words : List Word) :
    valueOfWords (words.map fun w => (w.val : Int)) = (bigEndian (Word.bytesOf words) : Int) := by
  rw [valueOfWords_val, Word.bigEndian_bytesOf]

/-- The value of words is not negative, and it has room in their bits. -/
theorem valueOfWords_bounds (words : List Word) :
    0 ≤ valueOfWords (words.map fun w => (w.val : Int)) ∧
      valueOfWords (words.map fun w => (w.val : Int)) < 2 ^ (16 * words.length) := by
  have hlt := Word.valueOf_lt words
  rw [← two_pow_sixteen_mul] at hlt
  rw [valueOfWords_val]
  exact ⟨Int.natCast_nonneg _, by exact_mod_cast hlt⟩

/-- Shifted by the words behind it and masked, the value is the word. -/
theorem masked_valueOfWords {words : List Word} {k : Nat} (h : k < words.length) :
    Bits.masked (valueOfWords (words.map fun w => (w.val : Int)) >>>
      (16 * (words.length - 1 - k))) 0xFFFF = words[k].val := by
  have hmask : ∀ n : Nat, Bits.masked (n : Int) 0xFFFF = n % 65536 :=
    fun n => Nat.and_two_pow_sub_one_eq_mod n 16
  rw [valueOfWords_val, ← Int.natCast_shiftRight, hmask, Nat.shiftRight_eq_div_pow,
    two_pow_sixteen_mul, Word.valueOf_div_mod h]

/-- Words behind others shift the value of these by sixteen bits a word. -/
theorem valueOfWords_append (words more : List Word) :
    valueOfWords ((words ++ more).map fun w => (w.val : Int)) =
      valueOfWords (words.map fun w => (w.val : Int)) * 2 ^ (16 * more.length) +
        valueOfWords (more.map fun w => (w.val : Int)) := by
  have happend := Word.valueOf_append words more
  rw [← two_pow_sixteen_mul] at happend
  rw [valueOfWords_val, valueOfWords_val, valueOfWords_val]
  exact_mod_cast happend

/-- The values of an instruction are what the bytes of its operand words denote, as they lie in a
buffer behind the instruction word at the position `pos`. -/
structure ValuesLie (i : Instruction) (bytes : List UInt8) (pos : Nat) : Prop where
  whole : pos + i.length ≤ bytes.length
  x : i.xValue = (bigEndian ((bytes.drop (pos + 2)).take (2 * i.xWords.length)) : Int)
  y : i.yValue =
    (bigEndian ((bytes.drop (pos + 2 + 2 * i.xWords.length)).take (2 * i.yWords.length)) : Int)
  x_bounds : 0 ≤ i.xValue ∧ i.xValue < 2 ^ (16 * i.xWords.length)
  y_bounds : 0 ≤ i.yValue ∧ i.yValue < 2 ^ (16 * i.yWords.length)

end Instruction

namespace Source

open Instruction

/-- Where words lie, the bytes there denote the value of the words. -/
theorem valueOfWords_of_lies {bytes : List UInt8} {pos : Nat} {words : List Word}
    (h : Word.bytesOf words <+: bytes.drop pos) :
    valueOfWords (words.map fun w => (w.val : Int)) =
      (bigEndian ((bytes.drop pos).take (2 * words.length)) : Int) := by
  rw [valueOfWords_eq_bigEndian, ← Word.length_bytesOf, ← List.prefix_iff_eq_take.mp h]

/-- Where an instruction lies, its values are what the bytes denote. -/
theorem valuesLie_of_lies {bytes : List UInt8} {pos : Nat} {w : Word} {xs ys : List Word}
    (address : Int) (d : Definition) (h : Word.bytesOf (w :: (xs ++ ys)) <+: bytes.drop pos) :
    (Instruction.ofWords address d w xs ys).ValuesLie bytes pos := by
  obtain ⟨hword, hoperands⟩ := Word.bytesOf_cons_prefix_iff.mp h
  obtain ⟨hx, hy⟩ := Word.bytesOf_append_prefix_iff.mp hoperands
  have hleft := two_left_of_lies hword
  have hlength := h.length_le
  rw [Word.length_bytesOf, List.length_drop, List.length_cons, List.length_append] at hlength
  have hxCount : (Instruction.ofWords address d w xs ys).xWords.length = xs.length :=
    List.length_map _
  have hyCount : (Instruction.ofWords address d w xs ys).yWords.length = ys.length :=
    List.length_map _
  constructor
  case whole =>
    rw [length_ofWords]
    omega
  case x =>
    rw [hxCount]
    exact valueOfWords_of_lies hx
  case y =>
    rw [hxCount, hyCount]
    exact valueOfWords_of_lies hy
  case x_bounds =>
    rw [hxCount]
    exact valueOfWords_bounds xs
  case y_bounds =>
    rw [hyCount]
    exact valueOfWords_bounds ys

/-- **Operand values are positional.**  The values of an instruction that was fetched from a buffer
are the numbers that the bytes of its operand words denote.  In the value of any words each word can
be found at its place, so words of one number and one value are the same; and to put words behind
others shifts the value of these. -/
theorem operand_values_are_positional :
    (∀ (table : Table) (bytes : List UInt8) (base : Int) (pos : Nat) (i : Instruction),
      ((buffer bytes base).fetch table pos).result = .ok i → i.ValuesLie bytes pos) ∧
    (∀ (words : List Word) (k : Nat) (hk : k < words.length),
      Bits.masked (valueOfWords (words.map fun w => (w.val : Int)) >>>
        (16 * (words.length - 1 - k))) 0xFFFF = words[k].val) ∧
    (∀ words others : List Word, words.length = others.length →
      valueOfWords (words.map fun w => (w.val : Int)) =
        valueOfWords (others.map fun w => (w.val : Int)) → words = others) ∧
    ∀ words more : List Word, valueOfWords ((words ++ more).map fun w => (w.val : Int)) =
      valueOfWords (words.map fun w => (w.val : Int)) * 2 ^ (16 * more.length) +
        valueOfWords (more.map fun w => (w.val : Int)) := by
  refine ⟨?_, fun words k hk => masked_valueOfWords hk, ?_, valueOfWords_append⟩
  · intro table bytes base pos i hi
    obtain ⟨w, xs, ys, hxs, hys, hlies⟩ := exists_prefix_of_fetch hi
    rw [fetch_of_lies hxs hys hlies] at hi
    cases hi
    exact valuesLie_of_lies _ _ hlies
  · intro words others hlength h
    rw [valueOfWords_val, valueOfWords_val, Int.natCast_inj] at h
    exact Word.eq_of_valueOf_eq hlength h

open Catalogs Table

/-- An instruction with operand words of both kinds, several of each, and no other instruction. -/
def wideCatalogs : Catalogs :=
  ofParts Catalog.catchAll [Catalog.entry 0x9000 0xFF00 .d 2 3 "COPY" "x,y" ""] (some [])

/-- Such an instruction with its five operand words, between two other bytes. -/
def wideBytes : List UInt8 :=
  [0xFF, 0x90, 0x12, 0xAB, 0xCD, 0x00, 0x01, 0x80, 0x00, 0x00, 0x02, 0xFF, 0xFE, 0xFF]

/-- The two words of the one kind make one value and the three of the other kind another.  The word
in the middle of the three is found at its place, and the five together have the first value sixteen
bits a word higher, and the second below it. -/
theorem operand_values_wideBytes :
    ∃ table i, build wideCatalogs .empty = .ok table ∧
      ((buffer wideBytes 0x100).fetch table 1).result = .ok i ∧
      i.xWords = [0xABCD, 0x0001] ∧ i.yWords = [0x8000, 0x0002, 0xFFFE] ∧
      i.xValue = 0xABCD0001 ∧ i.yValue = 0x80000002FFFE ∧ 1 < i.yWords.length ∧
      Bits.masked (valueOfWords i.yWords >>> (16 : Nat)) 0xFFFF = 0x0002 ∧
      valueOfWords (i.xWords ++ i.yWords) = i.xValue * 2 ^ 48 + i.yValue := by
  have haccepted : wideCatalogs.validate = .ok () := validate_eq_ok_iff.mpr (by decide)
  have hfits : (wideCatalogs.applied .empty).length ≤ 65536 := by decide
  obtain ⟨table, hbuild, -, hlast⟩ := exists_table haccepted hfits
  have hclaim : IsLastClaim (wideCatalogs.applied .empty) 0x9012 1
      (Catalog.entry 0x9000 0xFF00 .d 2 3 "COPY" "x,y" "") := ⟨rfl, by decide, by decide⟩
  have hdecode := ((hlast 0x9012).unique hclaim).2
  have hxs : [(0xABCD : Word), 0x0001].length = (table.decode 0x9012).xCount.val := by
    rw [hdecode]
    rfl
  have hys : [(0x8000 : Word), 0x0002, 0xFFFE].length = (table.decode 0x9012).yCount.val := by
    rw [hdecode]
    rfl
  have hlies : Word.bytesOf (0x9012 :: ([0xABCD, 0x0001] ++ [0x8000, 0x0002, 0xFFFE])) <+:
      wideBytes.drop 1 := ⟨[0xFF], by decide⟩
  have hresult := congrArg Attempt.result (@fetch_of_lies _ 0x100 _ _ _ _ _ hxs hys hlies)
  obtain ⟨hfetched, hwords, -, happend⟩ := operand_values_are_positional
  have hvalues := hfetched table wideBytes 0x100 1 _ hresult
  have hcut := hwords [0x8000, 0x0002, 0xFFFE] 1 (by decide)
  have hjoined := happend [0xABCD, 0x0001] [0x8000, 0x0002, 0xFFFE]
  exact ⟨table, _, hbuild, hresult, rfl, rfl, hvalues.x, hvalues.y,
    Nat.one_lt_succ_succ 1, hcut, hjoined⟩

end Source

end WordAtlas
