import Mathlib.Algebra.BigOperators.Fin
import WordAtlas.Proofs.OperandValues
import WordAtlas.Proofs.ReadsInTurn

/-!
# Packed integers

The number of some bytes is the sum of their place values (`ByteOrder.number`): a byte counts 256
times as much for each byte that is less significant.  A reading does not add place values.  It
folds the bytes, and if the least significant one comes first it turns them round before; the
outcome is the sum all the same (`ByteOrder.number_big`, `ByteOrder.number_little`).  With a sign,
an integer is less than the number by two to the number of bits, exactly if the top bit is set
(`ByteOrder.signedNumber`).

Buffers and memories are read alike.  Both *have* some bytes from a place on if the bytes lie there
one after the other (`Source.HasBytes`); then a layout of one item takes as many of them as the item
is wide (`Source.unpack_of_hasBytes`).  A word is such an item, so by induction words are read one
after the other (`Source.readWords_of_hasBytes`), and to join them gives the integer that can be
read at once from the same place (`Source.unpack_of_hasWords`).  All of it together is the main
statement, `Source.unpacked_integers_compose`.
-/

namespace WordAtlas

/-! ## Numbers of bytes -/

/-- Folding on from a number moves it in front of the bytes. -/
theorem foldl_bigEndian (n : Nat) (bytes : List UInt8) :
    bytes.foldl (fun n byte => 256 * n + byte.toNat) n =
      n * 256 ^ bytes.length + bigEndian bytes := by
  induction bytes generalizing n with
  | nil => simp [bigEndian]
  | cons byte rest ih =>
      rw [bigEndian, List.foldl_cons, List.foldl_cons, ih, ih, List.length_cons, pow_succ]
      ring

/-- In front of other bytes, a byte counts as many places more as there are others. -/
theorem bigEndian_cons (byte : UInt8) (rest : List UInt8) :
    bigEndian (byte :: rest) = byte.toNat * 256 ^ rest.length + bigEndian rest := by
  rw [bigEndian, List.foldl_cons, foldl_bigEndian, Nat.mul_zero, Nat.zero_add]

/-- A byte behind others moves them up by one place. -/
theorem bigEndian_concat (bytes : List UInt8) (byte : UInt8) :
    bigEndian (bytes ++ [byte]) = byte.toNat + 256 * bigEndian bytes := by
  rw [bigEndian, List.foldl_append, List.foldl_cons, List.foldl_nil, Nat.add_comm]
  rfl

/-- Bytes denote a number that fits into them. -/
theorem bigEndian_lt (bytes : List UInt8) : bigEndian bytes < 256 ^ bytes.length := by
  induction bytes with
  | nil => exact Nat.one_pos
  | cons byte rest ih =>
      have hbyte := byte.toNat_lt
      rw [bigEndian_cons, List.length_cons, pow_succ]
      calc byte.toNat * 256 ^ rest.length + bigEndian rest
          < byte.toNat * 256 ^ rest.length + 256 ^ rest.length := Nat.add_lt_add_left ih _
        _ = (byte.toNat + 1) * 256 ^ rest.length := (Nat.succ_mul _ _).symm
        _ ≤ 256 * 256 ^ rest.length := Nat.mul_le_mul_right _ hbyte
        _ = 256 ^ rest.length * 256 := Nat.mul_comm _ _

/-- The top bit tells the upper half of the numbers from the lower one. -/
theorem Bits.testBit_top_iff {n width : Nat} (hwidth : 0 < width) (h : n < 2 ^ width) :
    n.testBit (width - 1) = true ↔ 2 ^ width ≤ 2 * n := by
  have hhalf := Nat.two_pow_pred_mul_two hwidth
  by_cases hupper : 2 ^ (width - 1) ≤ n
  · have hbit : n.testBit (width - 1) = true := by
      apply Nat.testBit_of_two_pow_le_and_two_pow_add_one_gt hupper
      rwa [Nat.sub_add_cancel hwidth]
    exact iff_of_true hbit (by omega)
  · rw [Nat.testBit_lt_two_pow (Nat.lt_of_not_le hupper)]
    exact iff_of_false Bool.false_ne_true (by omega)

namespace ByteOrder

/-- How many of the bytes of a number are less significant than the one at the index `k`. -/
def rank : ByteOrder → Nat → Nat → Nat
  | big, size, k => size - 1 - k
  | little, _, k => k

/-- The number of some bytes: the sum of their place values. -/
def number (order : ByteOrder) (bytes : List UInt8) : Nat :=
  ∑ k : Fin bytes.length, bytes[k].toNat * 256 ^ order.rank bytes.length k

/-- The number of some bytes with a sign: less by two to the number of bits if the top bit is
set. -/
def signedNumber (order : ByteOrder) (bytes : List UInt8) : Int :=
  if (order.number bytes).testBit (8 * bytes.length - 1) then
    (order.number bytes : Int) - 2 ^ (8 * bytes.length)
  else order.number bytes

/-- In front of other bytes, the most significant one counts most. -/
theorem number_big_cons (byte : UInt8) (rest : List UInt8) :
    big.number (byte :: rest) = byte.toNat * 256 ^ rest.length + big.number rest := by
  have hrank : ∀ k : Fin rest.length,
      big.rank (rest.length + 1) (k.succ : Nat) = big.rank rest.length k := by
    intro k
    simp only [rank, Fin.val_succ]
    omega
  unfold number
  simp only [List.length_cons]
  rw [Fin.sum_univ_succ]
  simp only [hrank]
  rfl

/-- In front of other bytes, the least significant one moves them up. -/
theorem number_little_cons (byte : UInt8) (rest : List UInt8) :
    little.number (byte :: rest) = byte.toNat + 256 * little.number rest := by
  have hmoved : ∀ k : Fin rest.length,
      rest[k].toNat * 256 ^ little.rank (rest.length + 1) (k.succ : Nat) =
        256 * (rest[k].toNat * 256 ^ little.rank rest.length k) := by
    intro k
    simp only [rank, Fin.val_succ, pow_succ']
    exact Nat.mul_left_comm _ _ _
  unfold number
  simp only [List.length_cons]
  rw [Fin.sum_univ_succ, Finset.mul_sum]
  refine congrArg₂ (· + ·) (Nat.mul_one _) (Finset.sum_congr rfl fun k _ => hmoved k)

/-- By induction on the bytes, folding gives the sum of the place values. -/
theorem number_big (bytes : List UInt8) : big.number bytes = bigEndian bytes := by
  induction bytes with
  | nil => rfl
  | cons byte rest ih => rw [number_big_cons, bigEndian_cons, ih]

/-- If the least significant byte comes first, the bytes are folded from the other end. -/
theorem number_little (bytes : List UInt8) : little.number bytes = bigEndian bytes.reverse := by
  induction bytes with
  | nil => rfl
  | cons byte rest ih => rw [number_little_cons, List.reverse_cons, bigEndian_concat, ih]

/-- The two byte orders are each other's reverse. -/
theorem number_little_eq_big_reverse (bytes : List UInt8) :
    little.number bytes = big.number bytes.reverse := by
  rw [number_little, number_big]

/-- In either order, bytes denote a number that fits into them. -/
theorem number_lt (order : ByteOrder) (bytes : List UInt8) :
    order.number bytes < 2 ^ (8 * bytes.length) := by
  rw [pow_mul]
  cases order with
  | big =>
      rw [number_big]
      exact bigEndian_lt bytes
  | little =>
      rw [number_little, ← List.length_reverse]
      exact bigEndian_lt bytes.reverse

/-- To look at the top bit is to compare the number with half of the range. -/
theorem signedNumber_eq (order : ByteOrder) {bytes : List UInt8} (h : 0 < bytes.length) :
    order.signedNumber bytes =
      if 2 ^ (8 * bytes.length) ≤ 2 * order.number bytes then
        (order.number bytes : Int) - 2 ^ (8 * bytes.length)
      else order.number bytes :=
  if_congr (Bits.testBit_top_iff (by omega) (order.number_lt bytes)) rfl rfl

/-- A signed number lies between the bounds that its bytes have room for. -/
theorem signedNumber_bounds (order : ByteOrder) {bytes : List UInt8} (h : 0 < bytes.length) :
    -2 ^ (8 * bytes.length - 1) ≤ order.signedNumber bytes ∧
      order.signedNumber bytes ≤ 2 ^ (8 * bytes.length - 1) - 1 := by
  have hhalf : (2 : Int) ^ (8 * bytes.length - 1) * 2 = 2 ^ (8 * bytes.length) := by
    exact_mod_cast Nat.two_pow_pred_mul_two (show 0 < 8 * bytes.length by omega)
  have hlt : (order.number bytes : Int) < 2 ^ (8 * bytes.length) := by
    exact_mod_cast order.number_lt bytes
  rw [signedNumber_eq order h]
  by_cases hupper : 2 ^ (8 * bytes.length) ≤ 2 * order.number bytes
  · rw [if_pos hupper]
    zify at hupper
    omega
  · rw [if_neg hupper]
    zify at hupper
    omega

end ByteOrder

/-! ## Layouts of one item -/

/-- The letter of a packed integer; capitals have no sign. -/
def PackedInteger.letter : PackedInteger → Char
  | ⟨.one, false⟩ => 'B'
  | ⟨.one, true⟩ => 'b'
  | ⟨.two, false⟩ => 'H'
  | ⟨.two, true⟩ => 'h'
  | ⟨.four, false⟩ => 'I'
  | ⟨.four, true⟩ => 'i'
  | ⟨.eight, false⟩ => 'Q'
  | ⟨.eight, true⟩ => 'q'

/-- The mark that names a byte order. -/
def ByteOrder.mark : ByteOrder → Char
  | big => '>'
  | little => '<'

/-- The integer that bytes denote is their number, with or without sign. -/
theorem PackedInteger.value_eq (item : PackedInteger) (order : ByteOrder) {found : List UInt8}
    (h : found.length = item.size) :
    item.value order found =
      if item.signed then order.signedNumber found else (order.number found : Int) := by
  -- The value compares where the signed number looks at a bit.
  have hfolded : item.value order found =
      if item.signed ∧ 2 ^ (8 * found.length) ≤ 2 * order.number found then
        (order.number found : Int) - 2 ^ (8 * found.length)
      else order.number found := by
    rw [h]
    cases order with
    | big => simp [value, ByteOrder.number_big, Nat.one_shiftLeft]
    | little => simp [value, ByteOrder.number_little, Nat.one_shiftLeft]
  have hpos : 0 < found.length := by
    rw [h]
    exact item.size_pos
  rw [hfolded, ByteOrder.signedNumber_eq order hpos]
  cases item.signed with
  | false => simp
  | true => simp

namespace Layout

/-- The layout of a single item, with or without a named byte order. -/
def single (named : Option ByteOrder) (item : PackedInteger) : Layout :=
  ⟨named, item, []⟩

/-- The text of the layout of a single item. -/
def singleText (named : Option ByteOrder) (item : PackedInteger) : String :=
  String.ofList (named.toList.map ByteOrder.mark ++ [item.letter])

/-- A single item takes its own size. -/
@[simp] theorem packedSize_single (named : Option ByteOrder) (item : PackedInteger) :
    (single named item).packedSize = item.size :=
  Nat.zero_add item.size

/-- A single item has no padding. -/
@[simp] theorem span_single (named : Option ByteOrder) (item : PackedInteger) :
    (single named item).span = item.size := by
  rw [span_eq_packedSize rfl, packedSize_single]

/-- The text of the layout of a single item is read as this layout. -/
theorem ofText?_singleText (named : Option ByteOrder) (item : PackedInteger) :
    ofText? (singleText named item) = some (single named item) := by
  obtain ⟨width, signed⟩ := item
  unfold ofText? singleText
  rw [String.toList_ofList]
  cases named with
  | none => cases width <;> cases signed <;> rfl
  | some order => cases order <;> cases width <;> cases signed <;> rfl

end Layout

/-! ## Bytes that a source has -/

namespace Source

/-- There is a byte at a place of a source: in a buffer not before its start, in a memory within the
address space. -/
def HasByte : Source → Int → UInt8 → Prop
  | buffer bytes _, place, byte => 0 ≤ place ∧ bytes[place.toNat]? = some byte
  | memory cells, address, byte => address < addressSpace ∧ cells address = some (byte.toNat : Int)

instance decidableHasByte : ∀ (source : Source) (place : Int) (byte : UInt8),
    Decidable (source.HasByte place byte)
  | buffer bytes _, place, byte =>
      inferInstanceAs (Decidable (0 ≤ place ∧ bytes[place.toNat]? = some byte))
  | memory cells, address, byte =>
      inferInstanceAs (Decidable (address < addressSpace ∧ cells address = some (byte.toNat : Int)))

/-- From a place of a source on there are some bytes, one after the other. -/
def HasBytes (source : Source) : Int → List UInt8 → Prop
  | _, [] => True
  | place, byte :: rest => source.HasByte place byte ∧ source.HasBytes (place + 1) rest

instance decidableHasBytes (source : Source) : ∀ (place : Int) (found : List UInt8),
    Decidable (source.HasBytes place found)
  | _, [] => isTrue trivial
  | place, byte :: rest =>
      have := decidableHasBytes source (place + 1) rest
      inferInstanceAs (Decidable (source.HasByte place byte ∧ source.HasBytes (place + 1) rest))

/-- The addresses that are asked for on the way from one place to another. -/
def asks : Source → Int → Int → List Int
  | buffer _ _, _, _ => []
  | memory _, start, stop => Int.range start stop

variable {source : Source} {bytes found : List UInt8} {cells : Int → Option Int} {place : Int}

/-- On the way from a place to itself nothing is asked for. -/
@[simp] theorem asks_self (source : Source) (place : Int) : source.asks place place = [] := by
  cases source with
  | buffer bytes base => rfl
  | memory cells => exact range_self place

/-- What is asked for on a way is what is asked for on its two parts, one after the other. -/
theorem asks_append {start mid stop : Int} (hmid : start ≤ mid) (hstop : mid ≤ stop) :
    source.asks start mid ++ source.asks mid stop = source.asks start stop := by
  cases source with
  | buffer bytes base => rfl
  | memory cells => exact range_append_range hmid hstop

/-- Bytes and more bytes are there exactly if the bytes are there and the others behind them. -/
theorem hasBytes_append {more : List UInt8} :
    source.HasBytes place (found ++ more) ↔
      source.HasBytes place found ∧ source.HasBytes (place + found.length) more := by
  induction found generalizing place with
  | nil => simp [HasBytes]
  | cons byte rest ih =>
      have hnext : place + 1 + (rest.length : Int) = place + ((byte :: rest).length : Int) := by
        rw [List.length_cons]
        omega
      rw [List.cons_append, HasBytes, HasBytes, ih, hnext, and_assoc]

/-- A buffer has the bytes that lie in it. -/
theorem hasBytes_buffer_iff {base : Int} {n : Nat} :
    (buffer bytes base).HasBytes n found ↔ found <+: bytes.drop n := by
  induction found generalizing n with
  | nil => exact iff_of_true trivial List.nil_prefix
  | cons byte rest ih =>
      have hbyte : (buffer bytes base).HasByte n byte ↔ bytes[n]? = some byte :=
        and_iff_right (Int.natCast_nonneg n)
      rw [HasBytes, hbyte, ← Int.natCast_succ, ih]
      by_cases hn : n < bytes.length
      · rw [List.drop_eq_getElem_cons hn, List.cons_prefix_cons, List.getElem?_eq_getElem hn,
          Option.some.injEq, eq_comm]
      · have hend : bytes.length ≤ n := Nat.le_of_not_lt hn
        rw [List.getElem?_eq_none hend, List.drop_eq_nil_of_le hend]
        simp

/-- A buffer has the bytes that are taken from it. -/
theorem hasBytes_take {base : Int} {n count : Nat} :
    (buffer bytes base).HasBytes n ((bytes.drop n).take count) :=
  hasBytes_buffer_iff.mpr (List.take_prefix _ _)

/-- The bytes that a memory has lie within the address space. -/
theorem le_addressSpace_of_hasBytes (h : (memory cells).HasBytes place found)
    (hpos : 0 < found.length) : place + found.length ≤ addressSpace := by
  induction found generalizing place with
  | nil => exact absurd hpos (Nat.lt_irrefl 0)
  | cons byte rest ih =>
      obtain ⟨hbyte, hrest⟩ := h
      rw [List.length_cons]
      cases rest with
      | nil =>
          have hplace := hbyte.1
          rw [List.length_nil]
          omega
      | cons next more =>
          have hend := ih hrest (Nat.succ_pos _)
          omega

/-- The cells of a memory give the bytes that it has. -/
theorem cellBytes_of_hasBytes (h : (memory cells).HasBytes place found) :
    cellBytes cells place found.length =
      (.ok found, Int.range place (place + found.length)) := by
  induction found generalizing place with
  | nil =>
      rw [List.length_nil, Int.natCast_zero, Int.add_zero, range_self]
      rfl
  | cons byte rest ih =>
      obtain ⟨⟨-, hcell⟩, hrest⟩ := h
      have hstop : place + ((byte :: rest).length : Int) = place + 1 + rest.length := by
        rw [List.length_cons]
        omega
      have hrange : place :: Int.range (place + 1) (place + 1 + rest.length) =
          Int.range place (place + 1 + rest.length) := by
        rw [← range_append_range (show place ≤ place + 1 by omega)
          (show place + 1 ≤ place + 1 + rest.length by omega), range_succ_self]
        rfl
      rw [hstop, ← hrange, List.length_cons, cellBytes_of_holdsByte hcell byte.toNat_lt, ih hrest,
        UInt8.ofNat_toNat]
      rfl

/-! ## Reading what a source has -/

variable {named : Option ByteOrder} {item : PackedInteger}

/-- The bytes of a single item are taken as they come. -/
theorem bytesAt_of_hasBytes (h : source.HasBytes place found) (hsize : found.length = item.size) :
    source.bytesAt (.single named item) place =
      (.ok found, source.asks place (place + item.size)) := by
  have hpos : 0 < found.length := by
    rw [hsize]
    exact item.size_pos
  cases source with
  | buffer bytes base =>
      obtain ⟨n, rfl⟩ : ∃ n : Nat, place = n := by
        cases found with
        | nil => exact absurd hpos (Nat.lt_irrefl 0)
        | cons byte rest => exact Int.eq_ofNat_of_zero_le h.1.1
      -- A single item has no gaps: what is compared with the rest of the buffer is what is taken.
      have hlies := hasBytes_buffer_iff.mp h
      have hlength := hlies.length_le
      rw [List.length_drop] at hlength
      rw [bytesAt_buffer, Layout.span_single, Layout.packedSize_single, ← hsize, if_neg (by omega),
        ← List.prefix_iff_eq_take.mp hlies]
      rfl
  | memory cells =>
      have hfits := le_addressSpace_of_hasBytes h hpos
      rw [bytesAt, Layout.span_single, ← hsize, if_neg (by omega), cellBytes_of_hasBytes h]
      rfl

/-- An item is read of the bytes that a source has. -/
theorem unpack_of_hasBytes (h : source.HasBytes place found) (hsize : found.length = item.size) :
    source.unpack (.single named item) place =
      ⟨.ok (if item.signed then (named.getD .big).signedNumber found
        else ((named.getD .big).number found : Int)),
        place + item.size, source.asks place (place + item.size)⟩ := by
  unfold unpack
  rw [bytesAt_of_hasBytes h hsize, Layout.span_single, ← item.value_eq _ hsize]
  rfl

/-- A word is read where a source has its bytes. -/
theorem readWord_of_hasBytes {w : Word} (h : source.HasBytes place w.bytes) :
    source.readWord place = ⟨.ok (w.val : Int), place + 2, source.asks place (place + 2)⟩ := by
  have hread := @unpack_of_hasBytes source w.bytes place none ⟨.two, false⟩ h rfl
  rwa [if_neg Bool.false_ne_true, Option.getD_none, ByteOrder.number_big, Word.bigEndian_bytes]
    at hread

/-- By induction on their number, words are read one after the other. -/
theorem readWords_of_hasBytes {words : List Word} (h : source.HasBytes place (Word.bytesOf words)) :
    source.readWord.times words.length place =
      ⟨.ok (words.map fun w => (w.val : Int)), place + 2 * words.length,
        source.asks place (place + 2 * words.length)⟩ := by
  induction words generalizing place with
  | nil =>
      have hstop : place + 2 * (([] : List Word).length : Int) = place := Int.add_zero place
      rw [hstop, asks_self]
      rfl
  | cons w rest ih =>
      obtain ⟨hword, hrest⟩ := hasBytes_append.mp h
      rw [Word.length_bytes] at hrest
      have hstop : place + 2 * ((w :: rest).length : Int) = place + 2 + 2 * rest.length := by
        rw [List.length_cons]
        omega
      rw [hstop, ← asks_append (show place ≤ place + 2 by omega)
        (show place + 2 ≤ place + 2 + 2 * rest.length by omega)]
      refine (Reading.bind_of_ok (readWord_of_hasBytes hword)
        (Reading.bind_of_ok (ih hrest) rfl)).trans ?_
      rw [List.append_nil]
      rfl

/-- An even number of bytes are those of some words. -/
theorem exists_bytesOf {count : Nat} (h : found.length = 2 * count) :
    ∃ words : List Word, words.length = count ∧ Word.bytesOf words = found := by
  obtain ⟨words, hcount, hlies⟩ := @exists_words found 0 count (by omega)
  rw [List.drop_zero] at hlies
  refine ⟨words, hcount, hlies.eq_of_length ?_⟩
  rw [Word.length_bytesOf, hcount, h]

/-- An integer without sign is read of words as their joined value. -/
theorem unpack_of_hasWords {words : List Word} (width : Width)
    (h : source.HasBytes place (Word.bytesOf words)) (hsize : 2 * words.length = width.bytes)
    (hnamed : named ≠ some .little) :
    source.unpack (.single named ⟨width, false⟩) place =
      ⟨.ok (Instruction.valueOfWords (words.map fun w => (w.val : Int))), place + width.bytes,
        source.asks place (place + width.bytes)⟩ := by
  have hbig : named.getD .big = .big := by
    rcases named with _ | _ | _
    · rfl
    · rfl
    · exact absurd rfl hnamed
  have hlength : (Word.bytesOf words).length = width.bytes :=
    (Word.length_bytesOf words).trans hsize
  have hread := @unpack_of_hasBytes source _ place named ⟨width, false⟩ h hlength
  rwa [if_neg Bool.false_ne_true, hbig, ByteOrder.number_big,
    ← Instruction.valueOfWords_eq_bigEndian]
    at hread

end Source

/-! ## Joined words -/

/-- A number shifted by sixteen bits, with a word joined to it. -/
def Bits.joinWord (value word : Int) : Int :=
  either (value <<< (16 : Nat)) word

/-- To join a number to zero gives the number. -/
theorem Bits.zero_either (z : Int) : either 0 z = z := by
  cases z with
  | ofNat n => exact congrArg Int.ofNat (Nat.zero_or n)
  | negSucc n =>
      have hwithout : without n 0 = n := by simp [without]
      exact congrArg Int.negSucc hwithout

/-- The value of words is the first one with the others joined to it in turn. -/
theorem Instruction.valueOfWords_cons (first : Int) (rest : List Int) :
    valueOfWords (first :: rest) = rest.foldl Bits.joinWord first := by
  have hjoin : (fun value word : Int => Bits.either (value * 65536) word) = Bits.joinWord := by
    funext value word
    rw [Bits.joinWord, Int.shiftLeft_eq]
    rfl
  rw [valueOfWords, List.foldl_cons, Int.zero_mul, Bits.zero_either, hjoin]

namespace Source

variable {source : Source} {found : List UInt8} {place : Int}

/-- What is read of some bytes from a place on.  Bytes without a named order are big-endian. -/
structure ReadsBytes (source : Source) (place : Int) (found : List UInt8) : Prop where
  /-- An integer without sign is the number of its bytes. -/
  unsigned : ∀ (named : Option ByteOrder) (width : Width), found.length = width.bytes →
    source.unpack (.single named ⟨width, false⟩) place =
      ⟨.ok ((named.getD .big).number found : Int), place + width.bytes,
        source.asks place (place + width.bytes)⟩
  /-- An integer with a sign is their signed number, and lies within its range. -/
  signed : ∀ (named : Option ByteOrder) (width : Width), found.length = width.bytes →
    source.unpack (.single named ⟨width, true⟩) place =
        ⟨.ok ((named.getD .big).signedNumber found), place + width.bytes,
          source.asks place (place + width.bytes)⟩ ∧
      -2 ^ (8 * width.bytes - 1) ≤ (named.getD .big).signedNumber found ∧
      (named.getD .big).signedNumber found ≤ 2 ^ (8 * width.bytes - 1) - 1
  /-- An integer of four bytes is two words, the first one shifted and joined with the second. -/
  two_words : found.length = 4 → ∀ named : Option ByteOrder, named ≠ some .little →
    ∃ a b : Int, source.readWord.times 2 place =
        ⟨.ok [a, b], place + 4, source.asks place (place + 4)⟩ ∧
      source.unpack (.single named ⟨.four, false⟩) place =
        ⟨.ok (Bits.joinWord a b), place + 4, source.asks place (place + 4)⟩
  /-- An integer of eight bytes is four words, joined in the same way. -/
  four_words : found.length = 8 → ∀ named : Option ByteOrder, named ≠ some .little →
    ∃ a b c d : Int, source.readWord.times 4 place =
        ⟨.ok [a, b, c, d], place + 8, source.asks place (place + 8)⟩ ∧
      source.unpack (.single named ⟨.eight, false⟩) place =
        ⟨.ok (Bits.joinWord (Bits.joinWord (Bits.joinWord a b) c) d), place + 8,
          source.asks place (place + 8)⟩

/-- Where there are some bytes, they are read in every way that their number allows. -/
theorem readsBytes (h : source.HasBytes place found) : source.ReadsBytes place found where
  unsigned := by
    intro named width hsize
    exact @unpack_of_hasBytes source found place named ⟨width, false⟩ h hsize
  signed := by
    intro named width hsize
    have hpos : 0 < found.length := by
      rw [hsize]
      exact PackedInteger.size_pos ⟨width, true⟩
    have hbounds := (named.getD .big).signedNumber_bounds hpos
    rw [hsize] at hbounds
    exact ⟨@unpack_of_hasBytes source found place named ⟨width, true⟩ h hsize, hbounds⟩
  two_words := by
    intro hsize named hnamed
    obtain ⟨words, hcount, rfl⟩ := @exists_bytesOf found 2 hsize
    obtain ⟨a, b, rfl⟩ := List.length_eq_two.mp hcount
    refine ⟨a.val, b.val, readWords_of_hasBytes h, ?_⟩
    rw [unpack_of_hasWords .four h rfl hnamed, List.map_cons, Instruction.valueOfWords_cons]
    rfl
  four_words := by
    intro hsize named hnamed
    obtain ⟨words, hcount, rfl⟩ := @exists_bytesOf found 4 hsize
    obtain ⟨a, b, c, d, rfl⟩ := List.length_eq_four.mp hcount
    refine ⟨a.val, b.val, c.val, d.val, readWords_of_hasBytes h, ?_⟩
    rw [unpack_of_hasWords .eight h rfl hnamed, List.map_cons, Instruction.valueOfWords_cons]
    rfl

/-- **Unpacked integers compose.**  Each packed integer has a text, by itself or with a byte order.
Where enough bytes are left in a buffer, the number of an integer's bytes is read, with or without
sign, and the position moves behind them; little-endian is big-endian of the bytes turned round.
Four bytes read at once are two words joined, and eight bytes are four.  From a memory that has the
same bytes anywhere, the same is read. -/
theorem unpacked_integers_compose :
    (∀ (named : Option ByteOrder) (item : PackedInteger),
      Layout.ofText? (Layout.singleText named item) = some (.single named item)) ∧
    (∀ found : List UInt8, ByteOrder.little.number found = ByteOrder.big.number found.reverse) ∧
    ∀ (bytes : List UInt8) (base : Int) (pos count : Nat), pos + count ≤ bytes.length →
      ((bytes.drop pos).take count).length = count ∧
      (buffer bytes base).ReadsBytes pos ((bytes.drop pos).take count) ∧
      ∀ (cells : Int → Option Int) (start : Int),
        (memory cells).HasBytes start ((bytes.drop pos).take count) →
        (memory cells).ReadsBytes start ((bytes.drop pos).take count) ∧
        ∀ (named : Option ByteOrder) (item : PackedInteger), item.size = count →
          ((memory cells).unpack (.single named item) start).result =
            ((buffer bytes base).unpack (.single named item) pos).result := by
  refine ⟨Layout.ofText?_singleText, ByteOrder.number_little_eq_big_reverse, ?_⟩
  intro bytes base pos count hleft
  have hlength : ((bytes.drop pos).take count).length = count := by
    rw [List.length_take, List.length_drop]
    omega
  refine ⟨hlength, readsBytes hasBytes_take, ?_⟩
  intro cells start hhas
  refine ⟨readsBytes hhas, ?_⟩
  intro named item hsize
  have hitem := hlength.trans hsize.symm
  rw [unpack_of_hasBytes hhas hitem, unpack_of_hasBytes hasBytes_take hitem]

/-- The bytes of the least integer of eight bytes with a sign, behind another byte. -/
def leastBytes : List UInt8 :=
  [0x55, 0x80, 0, 0, 0, 0, 0, 0, 0]

/-- A memory that ends with these bytes. -/
def leastCells : Int → Option Int :=
  image leastBytes (addressSpace - 9)

/-- Eight bytes with the top bit alone are the least integer with a sign, in a buffer as at the
very end of a memory, and a small one if they are turned round; without sign they are four words
joined. -/
theorem least_integer_unpacked :
    1 + 8 ≤ leastBytes.length ∧
      (memory leastCells).HasBytes (addressSpace - 8) ((leastBytes.drop 1).take 8) ∧
      (buffer leastBytes 0).unpack (.single none ⟨.eight, true⟩) 1 = ⟨.ok (-2 ^ 63), 9, []⟩ ∧
      ((memory leastCells).unpack (.single none ⟨.eight, true⟩) (addressSpace - 8)).result =
        .ok (-2 ^ 63) ∧
      (buffer leastBytes 0).unpack (.single (some .little) ⟨.eight, true⟩) 1 =
        ⟨.ok 0x80, 9, []⟩ ∧
      ∃ a b c d asked, (memory leastCells).readWord.times 4 (addressSpace - 8) =
          ⟨.ok [a, b, c, d], addressSpace, asked⟩ ∧
        (memory leastCells).unpack (.single none ⟨.eight, false⟩) (addressSpace - 8) =
          ⟨.ok (Bits.joinWord (Bits.joinWord (Bits.joinWord a b) c) d),
            addressSpace, asked⟩ := by
  obtain ⟨-, -, hcompose⟩ := unpacked_integers_compose
  have hleft : 1 + 8 ≤ leastBytes.length := by decide
  have hhas : (memory leastCells).HasBytes (addressSpace - 8) ((leastBytes.drop 1).take 8) := by
    decide
  obtain ⟨hlength, hbuffer, hmemory⟩ := hcompose leastBytes 0 1 8 hleft
  obtain ⟨hreads, hsame⟩ := hmemory leastCells (addressSpace - 8) hhas
  obtain ⟨hleast, -⟩ := hbuffer.signed none .eight hlength
  obtain ⟨hsmall, -⟩ := hbuffer.signed (some .little) .eight hlength
  have hbig : ((none : Option ByteOrder).getD .big).signedNumber ((leastBytes.drop 1).take 8) =
      -2 ^ 63 := by decide
  have hlittle : ((some ByteOrder.little).getD .big).signedNumber ((leastBytes.drop 1).take 8) =
      0x80 := by decide
  rw [hbig] at hleast
  rw [hlittle] at hsmall
  obtain ⟨a, b, c, d, hwords, hjoined⟩ := hreads.four_words hlength none (by decide)
  exact ⟨hleft, hhas, hleast, (hsame none ⟨.eight, true⟩ rfl).trans (congrArg Attempt.result hleast),
    hsmall, a, b, c, d, _, hwords, hjoined⟩

end Source

end WordAtlas
