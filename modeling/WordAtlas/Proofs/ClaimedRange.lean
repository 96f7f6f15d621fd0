import Mathlib.Algebra.Group.Int.Defs
import WordAtlas.Catalog.Shipped
import WordAtlas.Proofs.Range

/-!
# When claims are ranges

A definition claims words bit by bit, but its range is an interval of numbers, from the encoding
through the free bits.  The two agree for clean definitions, and for no others: the range begins
with the encoding, which is claimed only if it fits the mask, and adding a power of two to the
encoding always changes the bit of that power (`RangeClaimed.testBit_freeBits`), so every bit up to
the highest free one must be free.

Numbers outside the words are claimed as well, but a mask sees no more of a number than its last
sixteen bits (`Bits.masked_emod`).  The main statement is `range_claimed_iff_clean`.
-/

namespace WordAtlas

namespace Bits

/-- The last sixteen bits of a number are those of its remainder, also if it is negative. -/
theorem testBit_emod (z : Int) {i : Nat} (hi : i < 16) : testBit (z % 65536) i = testBit z i := by
  cases z with
  | ofNat n =>
      have hlow : testBit (Int.ofNat n % 65536) i = (n % 2 ^ 16).testBit i := rfl
      rw [hlow, Nat.testBit_mod_two_pow]
      simp [hi, testBit]
  | negSucc n =>
      have hlt : n % 2 ^ 16 < 2 ^ 16 := Nat.mod_lt _ (by decide)
      have hrest : Int.negSucc n % 65536 = Int.ofNat (2 ^ 16 - (n % 2 ^ 16 + 1)) := by
        rw [Int.negSucc_eq]
        change -((n : Int) + 1) % 65536 = ((2 ^ 16 - (n % 2 ^ 16 + 1) : Nat) : Int)
        omega
      rw [hrest, testBit, Nat.testBit_two_pow_sub_succ hlt, Nat.testBit_mod_two_pow]
      simp [hi, testBit]

/-- A mask of sixteen bits looks at the low sixteen bits only. -/
theorem masked_emod (z : Int) (mask : Word) : masked (z % 65536) mask.val = masked z mask.val := by
  apply Nat.eq_of_testBit_eq
  intro i
  rw [testBit_masked, testBit_masked]
  by_cases hi : i < 16
  · rw [testBit_emod z hi]
  · have hclear : mask.val.testBit i = false := Bool.eq_false_iff.mpr (mt lt_of_testBit hi)
    rw [hclear, Bool.and_false, Bool.and_false]

/-- A number whose bits are all set, up to the highest one, is a power of two less one. -/
theorem exists_succ_eq_two_pow {n : Nat} (h : ∀ i, 2 ^ i ≤ n → n.testBit i = true) :
    ∃ k, n + 1 = 2 ^ k := by
  by_cases hzero : n = 0
  · exact ⟨0, by rw [hzero, Nat.pow_zero]⟩
  refine ⟨n.log2 + 1, ?_⟩
  have hbits : n = 2 ^ (n.log2 + 1) - 1 := by
    apply Nat.eq_of_testBit_eq
    intro i
    rw [Nat.testBit_two_pow_sub_one]
    by_cases hi : i < n.log2 + 1
    · rw [decide_eq_true hi]
      exact h i ((Nat.le_log2 hzero).mp (Nat.le_of_lt_succ hi))
    · rw [decide_eq_false hi]
      exact Nat.testBit_lt_two_pow (Nat.lt_of_lt_of_le Nat.lt_log2_self
        (Nat.pow_le_pow_right (by decide) (Nat.le_of_not_lt hi)))
  have hpos : 0 < 2 ^ (n.log2 + 1) := Nat.two_pow_pos _
  omega

end Bits

namespace Mask

/-- The free bits are those of the sixteen that the mask leaves out. -/
theorem testBit_freeBits (mask : Word) (i : Nat) :
    (freeBits mask).testBit i = (decide (i < 16) && !mask.val.testBit i) := by
  have hfree : freeBits mask = 2 ^ 16 - (mask.val + 1) := by
    unfold freeBits
    omega
  rw [hfree, Nat.testBit_two_pow_sub_succ mask.isLt]

/-- A mask is a run of high bits if the bits that it leaves free are the low ones. -/
theorem isPrefix_of_freeBits {mask : Word} {k : Nat} (h : freeBits mask + 1 = 2 ^ k) :
    isPrefix mask = true := by
  have hlt := mask.isLt
  unfold freeBits at h
  have hle : 2 ^ k ≤ 2 ^ 16 := by omega
  exact isPrefix_iff.mpr ⟨k, (Nat.pow_le_pow_iff_right (by decide)).mp hle, by omega⟩

/-- Of all numbers, the prefix masks are the numbers `2 ^ 16 - 2 ^ k`. -/
theorem isPrefixNumber_iff (z : Int) :
    isPrefixNumber z = true ↔ ∃ k : Nat, k ≤ 16 ∧ z = 2 ^ 16 - 2 ^ k := by
  have hcast : ∀ {k : Nat}, k ≤ 16 → ((2 ^ 16 - 2 ^ k : Nat) : Int) = 2 ^ 16 - 2 ^ k := by
    intro k hk
    rw [Int.natCast_sub (Nat.pow_le_pow_right (by decide) hk), Int.natCast_pow, Int.natCast_pow]
    rfl
  unfold isPrefixNumber
  cases hz : Word.ofInt z with
  | ok mask =>
      obtain rfl := Word.ofInt_eq_ok_iff.mp hz
      simp only [isPrefix_iff]
      refine exists_congr fun k => and_congr_right fun hk => ?_
      rw [← hcast hk, Int.ofNat_inj]
  | error refused =>
      refine iff_of_false Bool.false_ne_true ?_
      intro hshape
      obtain ⟨k, hk, rfl⟩ := hshape
      have hpos : 0 < 2 ^ k := Nat.two_pow_pos k
      have hout := (Word.ofInt_eq_error_iff.mp hz).2
      rw [← hcast hk] at hout
      omega

end Mask

namespace Definition

/-- The range of a definition holds a number. -/
def InRange (d : Definition) (z : Int) : Prop :=
  (d.first : Int) ≤ z ∧ z < d.stop

instance (d : Definition) : DecidablePred d.InRange :=
  fun z => inferInstanceAs (Decidable ((d.first : Int) ≤ z ∧ z < d.stop))

/-- The range of a definition holds words only, and just those that it claims. -/
def RangeClaimed (d : Definition) : Prop :=
  ∀ z : Int, d.InRange z ↔ (0 ≤ z ∧ z ≤ 0xFFFF) ∧ d.covers z = true

theorem inRange_add {d : Definition} {i : Nat} (h : i ≤ d.freeBits) :
    d.InRange ((d.encoding.val + i : Nat) : Int) := by
  unfold InRange first stop
  omega

/-! ## Clean definitions -/

theorem IsClean.inRange_word_iff {d : Definition} (h : d.IsClean) (w : Word) :
    d.InRange w.val ↔ d.covers w.val = true := by
  rw [covers_iff_range h, InRange, Int.ofNat_le, Int.ofNat_lt]

/-- A clean definition claims its range. -/
theorem IsClean.rangeClaimed {d : Definition} (h : d.IsClean) : d.RangeClaimed := by
  intro z
  by_cases hz : 0 ≤ z ∧ z ≤ 0xFFFF
  · obtain ⟨n, rfl⟩ := Int.eq_ofNat_of_zero_le hz.1
    rw [h.inRange_word_iff ⟨n, by omega⟩]
    exact (and_iff_right hz).symm
  · have hend := stop_le h
    refine iff_of_false (fun hrange => hz ?_) (fun hclaimed => hz hclaimed.1)
    unfold InRange at hrange
    omega

/-- The claim of a clean definition is repeated every 65536 numbers. -/
theorem IsClean.covers_iff_inRange_emod {d : Definition} (h : d.IsClean) (z : Int) :
    d.covers z = true ↔ d.InRange (z % 65536) := by
  have hcovers : d.covers z = d.covers (z % 65536) := by
    rw [covers, covers, Bits.masked_emod]
  rw [hcovers, h.rangeClaimed]
  exact (and_iff_right (by omega)).symm

/-- The range of a clean definition holds the encoding with any number put into the free bits. -/
theorem IsClean.inRange_iff_exists_or {d : Definition} (h : d.IsClean) (z : Int) :
    d.InRange z ↔ ∃ i, i ≤ d.freeBits ∧ z = ((d.encoding.val ||| i : Nat) : Int) := by
  obtain ⟨k, q, -, -, hencoding, hstop⟩ := h.aligned
  have hfree : d.freeBits + 1 = 2 ^ k := by
    rw [Nat.mul_succ, ← hencoding, stop] at hstop
    omega
  have hor : ∀ {i : Nat}, i ≤ d.freeBits → d.encoding.val ||| i = d.encoding.val + i := by
    intro i hi
    rw [hencoding, Nat.two_pow_add_eq_or_of_lt (by omega)]
  constructor
  · intro hrange
    unfold InRange first stop at hrange
    have hi : (z - d.encoding.val).toNat ≤ d.freeBits := by omega
    refine ⟨_, hi, ?_⟩
    rw [hor hi]
    omega
  · intro hpattern
    obtain ⟨i, hi, rfl⟩ := hpattern
    rw [hor hi]
    exact inRange_add hi

/-! ## Definitions that claim their range -/

/-- The range begins with the encoding, which is claimed only if it fits the mask. -/
theorem RangeClaimed.fitsMask {d : Definition} (h : d.RangeClaimed) : d.fitsMask = true :=
  beq_iff_eq.mpr (covers_natCast_iff.mp ((h _).mp (inRange_add (Nat.zero_le _))).2)

/-- Adding a power of two to the encoding changes the bit of that power, so the mask must not look
at it. -/
theorem RangeClaimed.testBit_freeBits {d : Definition} (h : d.RangeClaimed) {i : Nat}
    (hi : 2 ^ i ≤ d.freeBits) : d.freeBits.testBit i = true := by
  have hclaimed := covers_natCast_iff.mp ((h _).mp (inRange_add hi)).2
  -- Bit `i` of the sum is the opposite of the encoding's, and under the mask it is the same.
  have hbit := congrArg (Nat.testBit · i) hclaimed
  simp only [Nat.testBit_and, Nat.add_comm d.encoding.val, Nat.testBit_two_pow_add_eq] at hbit
  have hwide : i < 16 := by
    have hlt : 2 ^ i < 2 ^ 16 := by
      unfold freeBits Mask.freeBits at hi
      omega
    exact (Nat.pow_lt_pow_iff_right (by decide : 1 < 2)).mp hlt
  rw [freeBits, Mask.testBit_freeBits, decide_eq_true hwide]
  cases hmask : d.mask.val.testBit i with
  | false => rfl
  | true =>
      rw [hmask, Bool.and_true] at hbit
      exact absurd hbit (by simp)

/-- Only clean definitions claim their range. -/
theorem rangeClaimed_iff {d : Definition} :
    d.RangeClaimed ↔ Mask.isPrefix d.mask = true ∧ d.fitsMask = true := by
  constructor
  · intro h
    obtain ⟨k, hk⟩ := Bits.exists_succ_eq_two_pow fun i hi => h.testBit_freeBits hi
    exact ⟨Mask.isPrefix_of_freeBits hk, h.fitsMask⟩
  · intro h
    exact (isClean_iff.mpr h).rangeClaimed

/-- **Claims are ranges for clean definitions only.**  The range of a definition holds exactly the
words that it claims if and only if its mask is a run of high bits and its encoding sets no bit
outside it.  It then holds the encoding with any number put into the free bits, and a number of any
size is claimed when its remainder modulo 65536 lies in the range.  The runs of high bits, among all
numbers, are `2 ^ 16 - 2 ^ k` for the `k` up to 16. -/
theorem range_claimed_iff_clean :
    (∀ d : Definition,
      (∀ z : Int, d.InRange z ↔ (0 ≤ z ∧ z ≤ 0xFFFF) ∧ d.covers z = true) ↔
        Mask.isPrefix d.mask = true ∧ d.fitsMask = true) ∧
    (∀ d : Definition, Mask.isPrefix d.mask = true → d.fitsMask = true → ∀ z : Int,
      (d.InRange z ↔ ∃ i, i ≤ d.freeBits ∧ z = ((d.encoding.val ||| i : Nat) : Int)) ∧
      (d.covers z = true ↔ d.InRange (z % 65536))) ∧
    ∀ z : Int, Mask.isPrefixNumber z = true ↔ ∃ k : Nat, k ≤ 16 ∧ z = 2 ^ 16 - 2 ^ k := by
  refine ⟨fun d => rangeClaimed_iff, ?_, Mask.isPrefixNumber_iff⟩
  intro d hmask hfits z
  have hclean : d.IsClean := isClean_iff.mpr ⟨hmask, hfits⟩
  exact ⟨hclean.inRange_iff_exists_or z, hclean.covers_iff_inRange_emod z⟩

/-- A negative number is claimed by its last sixteen bits, and a mask with a gap makes the range
claim other words than the definition does. -/
theorem covers_far_below_and_not_gap :
    let d := Catalog.entry 0x1340 0xFFF0 .e 0 0 "STORE" "i" ""
    let gap := Catalog.entry 0x1040 0xF0F0 .e 0 0 "STORE" "i" ""
    Mask.isPrefix d.mask = true ∧ d.fitsMask = true ∧ d.covers (0x134A - 0x30000) = true ∧
      ¬ ∀ z : Int, gap.InRange z ↔ (0 ≤ z ∧ z ≤ 0xFFFF) ∧ gap.covers z = true := by
  intro d gap
  have hmask : Mask.isPrefix d.mask = true := by decide
  have hfits : d.fitsMask = true := by decide
  have hcovers := (range_claimed_iff_clean.2.1 d hmask hfits (0x134A - 0x30000)).2
  have hgap := range_claimed_iff_clean.1 gap
  exact ⟨hmask, hfits, hcovers.mpr (by decide), fun h => absurd (hgap.mp h) (by decide)⟩

end Definition

end WordAtlas
