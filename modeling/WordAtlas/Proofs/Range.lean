import Mathlib.Algebra.Group.Nat.Defs
import WordAtlas.Definition

/-!
# Ranges of words

A definition claims the words that agree with its encoding on the set bits of its mask.  If the mask
is a run of high bits and the encoding sets no bit outside it, these words form one range, from the
encoding through the free bits.

The key local fact is `and_prefixMask`: masking by `2 ^ 16 - 2 ^ k` rounds a word down to a multiple
of `2 ^ k`.  From it `covers_iff_range` follows, and with it two such definitions share a word
exactly when their ranges overlap (`exists_covers_both_iff`).
-/

namespace WordAtlas

namespace Bits

/-- A word has sixteen bits. -/
theorem lt_of_testBit {w : Word} {i : Nat} (h : w.val.testBit i = true) : i < 16 := by
  have hlt : 2 ^ i < 2 ^ 16 := Nat.lt_of_le_of_lt (Nat.ge_two_pow_of_testBit h) w.isLt
  exact (Nat.pow_lt_pow_iff_right (by decide : 1 < 2)).mp hlt

end Bits

namespace Mask

/-- **The shape of prefix masks.**  They are the numbers `2 ^ 16 - 2 ^ k`. -/
theorem isPrefix_iff {mask : Word} :
    isPrefix mask = true ↔ ∃ k, k ≤ 16 ∧ mask.val = 2 ^ 16 - 2 ^ k := by
  have hlt := mask.isLt
  have htest : isPrefix mask = true ↔ (65536 - mask.val).isPowerOfTwo := by
    rw [← Nat.and_sub_one_eq_zero_iff_isPowerOfTwo (by omega), Nat.and_comm]
    have hfree : freeBits mask = 65536 - mask.val - 1 := by
      unfold freeBits
      omega
    have hnext : 65536 - mask.val - 1 + 1 = 65536 - mask.val := by omega
    rw [isPrefix, hfree, hnext, beq_iff_eq]
  rw [htest]
  constructor
  · intro hpower
    obtain ⟨k, hk⟩ := hpower
    have hle : 2 ^ k ≤ 2 ^ 16 := by omega
    exact ⟨k, (Nat.pow_le_pow_iff_right (by decide)).mp hle, by omega⟩
  · intro hshape
    obtain ⟨k, hk, hmask⟩ := hshape
    have hle : 2 ^ k ≤ 2 ^ 16 := Nat.pow_le_pow_right (by decide) hk
    exact ⟨k, by omega⟩

theorem testBit_prefixMask {k : Nat} (hk : k ≤ 16) (i : Nat) :
    (2 ^ 16 - 2 ^ k).testBit i = (decide (k ≤ i) && decide (i < 16)) := by
  have hsplit : 2 ^ 16 - 2 ^ k = 2 ^ k * (2 ^ (16 - k) - 1) := by
    rw [Nat.mul_sub, ← Nat.pow_add, Nat.mul_one]
    congr 2
    omega
  rw [hsplit, Nat.testBit_two_pow_mul, Nat.testBit_two_pow_sub_one]
  by_cases hi : k ≤ i
  · have hiff : i - k < 16 - k ↔ i < 16 := by omega
    simp [hi, hiff]
  · simp [hi]

/-- Masking by a prefix mask rounds a word down. -/
theorem and_prefixMask {k n : Nat} (hk : k ≤ 16) (hn : n < 2 ^ 16) :
    n &&& (2 ^ 16 - 2 ^ k) = 2 ^ k * (n / 2 ^ k) := by
  apply Nat.eq_of_testBit_eq
  intro i
  rw [Nat.testBit_and, testBit_prefixMask hk, Nat.testBit_two_pow_mul, Nat.testBit_div_two_pow]
  by_cases hi : k ≤ i
  · have hback : i - k + k = i := by omega
    rw [hback]
    by_cases hwide : i < 16
    · simp [hi, hwide]
    · have hzero : n.testBit i = false :=
        Nat.testBit_lt_two_pow (Nat.lt_of_lt_of_le hn (Nat.pow_le_pow_right (by decide) (by omega)))
      simp [hzero]
  · simp [hi]

end Mask

namespace Definition

/-- A definition that claims its words in one range: its mask is a run of high bits, and its
encoding sets no bit outside it. -/
structure IsClean (d : Definition) : Prop where
  mask : ∃ k, k ≤ 16 ∧ d.mask.val = 2 ^ 16 - 2 ^ k
  encoding : d.encoding.val &&& d.mask.val = d.encoding.val

theorem isClean_iff {d : Definition} :
    d.IsClean ↔ Mask.isPrefix d.mask = true ∧ d.fitsMask = true := by
  rw [Mask.isPrefix_iff, fitsMask, beq_iff_eq]
  exact ⟨fun h => ⟨h.mask, h.encoding⟩, fun h => ⟨h.1, h.2⟩⟩

/-- The range of a clean definition starts at a multiple of its size, a power of two. -/
theorem IsClean.aligned {d : Definition} (h : d.IsClean) :
    ∃ k q, k ≤ 16 ∧ d.mask.val = 2 ^ 16 - 2 ^ k ∧ d.encoding.val = 2 ^ k * q ∧
      d.stop = 2 ^ k * (q + 1) := by
  obtain ⟨k, hk, hmask⟩ := h.mask
  have hround := h.encoding
  rw [hmask, Mask.and_prefixMask hk d.encoding.isLt] at hround
  have hle : 2 ^ k ≤ 2 ^ 16 := Nat.pow_le_pow_right (by decide) hk
  have hpos : 0 < 2 ^ k := Nat.two_pow_pos k
  refine ⟨k, d.encoding.val / 2 ^ k, hk, hmask, hround.symm, ?_⟩
  rw [Nat.mul_succ, hround, stop, freeBits, Mask.freeBits, hmask]
  omega

/-- To be claimed, a number that is not negative has to give the encoding under the mask. -/
theorem covers_natCast_iff {d : Definition} {n : Nat} :
    d.covers n = true ↔ n &&& d.mask.val = d.encoding.val :=
  beq_iff_eq

/-- **Claims are ranges.**  A clean definition claims the words from its encoding through its free
bits, and no others. -/
theorem covers_iff_range {d : Definition} (h : d.IsClean) (w : Word) :
    d.covers w.val = true ↔ d.first ≤ w.val ∧ w.val < d.stop := by
  obtain ⟨k, q, hk, hmask, hencoding, hstop⟩ := h.aligned
  have hpos : 0 < 2 ^ k := Nat.two_pow_pos k
  have hmasked : Bits.masked (w.val : Int) d.mask.val = 2 ^ k * (w.val / 2 ^ k) := by
    rw [hmask, ← Mask.and_prefixMask hk w.isLt]
    rfl
  rw [covers, hmasked, beq_iff_eq, first, hstop, hencoding, Nat.mul_right_inj (by omega),
    Nat.div_eq_iff hpos, Nat.mul_comm _ q, Nat.mul_succ, Nat.mul_comm _ q]
  omega

theorem first_lt_stop (d : Definition) : d.first < d.stop := by
  unfold first stop
  omega

theorem covers_encoding {d : Definition} (h : d.IsClean) : d.covers d.encoding.val = true :=
  (covers_iff_range h d.encoding).mpr ⟨Nat.le_refl _, d.first_lt_stop⟩

/-- A definition whose mask and encoding are empty claims every word. -/
theorem covers_of_mask_zero {d : Definition} (hmask : d.mask.val = 0)
    (hencoding : d.encoding.val = 0) (w : Word) : d.covers w.val = true := by
  rw [covers, hmask, hencoding]
  exact beq_iff_eq.mpr (Nat.and_zero w.val)

theorem stop_le {d : Definition} (h : d.IsClean) : d.stop ≤ 65536 := by
  obtain ⟨k, q, hk, -, hencoding, hstop⟩ := h.aligned
  have hlt : 2 ^ k * q < 2 ^ k * 2 ^ (16 - k) := by
    have hwords : 2 ^ k * 2 ^ (16 - k) = 65536 := by
      rw [← Nat.pow_add, Nat.add_sub_cancel' hk]
    have := d.encoding.isLt
    omega
  have hq : q < 2 ^ (16 - k) := Nat.lt_of_mul_lt_mul_left hlt
  calc d.stop = 2 ^ k * (q + 1) := hstop
    _ ≤ 2 ^ k * 2 ^ (16 - k) := Nat.mul_le_mul_left _ hq
    _ = 65536 := by rw [← Nat.pow_add, Nat.add_sub_cancel' hk]

/-- Clean definitions share a word exactly when their ranges overlap. -/
theorem exists_covers_both_iff {d other : Definition} (h : d.IsClean) (hother : other.IsClean) :
    (∃ w : Word, d.covers w.val = true ∧ other.covers w.val = true) ↔
      d.first < other.stop ∧ other.first < d.stop := by
  simp only [covers_iff_range h, covers_iff_range hother]
  constructor
  · intro hshared
    obtain ⟨w, hd, ho⟩ := hshared
    omega
  · intro hoverlap
    have hd := d.first_lt_stop
    have ho := other.first_lt_stop
    have hend := stop_le h
    exact ⟨⟨max d.first other.first, by omega⟩, by simp only; omega⟩

theorem covers_congr {d other : Definition} (hencoding : d.encoding = other.encoding)
    (hmask : d.mask = other.mask) (z : Int) : d.covers z = other.covers z := by
  unfold covers
  rw [hencoding, hmask]

end Definition

end WordAtlas
