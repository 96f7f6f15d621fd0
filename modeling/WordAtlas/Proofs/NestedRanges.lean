import WordAtlas.Proofs.ClaimedRange

/-!
# Nested ranges

The range of a clean definition starts at a multiple of its length, and that length is a power of
two.  Of two such ranges the shorter one therefore lies between two neighbouring multiples of the
longer length, entirely or not at all (`within_of_meets`): partial overlaps do not occur.

What else is said of two ranges holds of any definitions, since it only takes the ends of intervals.
The main statement is `Definition.ranges_nested_or_apart`.
-/

namespace WordAtlas

/-- Of two overlapping ranges between neighbouring multiples, of a power of two and of a larger one,
the first lies in the second. -/
theorem aligned_within {k l p q : Nat} (hkl : k ≤ l) (hfirst : 2 ^ k * p < 2 ^ l * (q + 1))
    (hsecond : 2 ^ l * q < 2 ^ k * (p + 1)) :
    2 ^ l * q ≤ 2 ^ k * p ∧ 2 ^ k * (p + 1) ≤ 2 ^ l * (q + 1) := by
  have hsplit : ∀ n, 2 ^ l * n = 2 ^ k * (2 ^ (l - k) * n) := by
    intro n
    rw [← Nat.mul_assoc, ← Nat.pow_add, Nat.add_sub_cancel' hkl]
  rw [hsplit] at hfirst hsecond
  rw [hsplit, hsplit]
  have hbelow : p < 2 ^ (l - k) * (q + 1) := Nat.lt_of_mul_lt_mul_left hfirst
  have habove : 2 ^ (l - k) * q < p + 1 := Nat.lt_of_mul_lt_mul_left hsecond
  exact ⟨Nat.mul_le_mul_left _ (Nat.le_of_lt_succ habove), Nat.mul_le_mul_left _ hbelow⟩

namespace Definition

variable {d other : Definition}

/-- The ranges of two definitions have a number in common. -/
def Meets (d other : Definition) : Prop :=
  ∃ z, d.InRange z ∧ other.InRange z

/-- The range of a definition lies in that of another. -/
def Within (d other : Definition) : Prop :=
  ∀ z, d.InRange z → other.InRange z

/-- The least number that the ranges of two definitions have in common. -/
structure IsMeetingPoint (d other : Definition) (z : Int) : Prop where
  mem : d.InRange z
  mem_other : other.InRange z
  least : ∀ y, d.InRange y → other.InRange y → z ≤ y

/-! ## Ranges as intervals -/

theorem inRange_first (d : Definition) : d.InRange d.first :=
  ⟨Int.le_refl _, Int.ofNat_lt.mpr d.first_lt_stop⟩

theorem inRange_last (d : Definition) : d.InRange (d.stop - 1) := by
  have := d.first_lt_stop
  unfold InRange
  omega

/-- A range lies within another exactly if it begins no earlier and stops no later. -/
theorem within_iff : d.Within other ↔ other.first ≤ d.first ∧ d.stop ≤ other.stop := by
  constructor
  · intro h
    have hfirst := h _ d.inRange_first
    have hlast := h _ d.inRange_last
    unfold InRange at hfirst hlast
    omega
  · intro h z hz
    unfold InRange at hz ⊢
    omega

/-- Two ranges meet exactly if each begins before the other stops. -/
theorem meets_iff : d.Meets other ↔ d.first < other.stop ∧ other.first < d.stop := by
  have hd := d.first_lt_stop
  have hother := other.first_lt_stop
  unfold Meets InRange
  constructor
  · intro hcommon
    obtain ⟨z, hz, hz'⟩ := hcommon
    omega
  · intro h
    exact ⟨(max d.first other.first : Nat), by omega, by omega⟩

theorem Meets.symm (h : d.Meets other) : other.Meets d := by
  obtain ⟨z, hz, hz'⟩ := h
  exact ⟨z, hz', hz⟩

/-- A range within another has no more free bits. -/
theorem Within.freeBits_le (h : d.Within other) : d.freeBits ≤ other.freeBits := by
  have hends := within_iff.mp h
  unfold first stop at hends
  omega

/-- A range has one first and one last number, so it belongs to one encoding and one mask. -/
theorem sameSlot_iff_inRange :
    d.sameSlot other = true ↔ ∀ z, d.InRange z ↔ other.InRange z := by
  rw [sameSlot, Bool.and_eq_true, beq_iff_eq, beq_iff_eq]
  constructor
  · intro hslot z
    obtain ⟨hencoding, hmask⟩ := hslot
    rw [InRange, InRange, first, first, stop, stop, freeBits, freeBits, hencoding, hmask]
  · intro h
    have hin := within_iff.mp fun z => (h z).mp
    have hout := within_iff.mp fun z => (h z).mpr
    have hmask := d.mask.isLt
    have hmask' := other.mask.isLt
    unfold first stop freeBits Mask.freeBits at hin hout
    exact ⟨Fin.ext (by omega), Fin.ext (by omega)⟩

/-- Where two ranges meet, the least word that they share is the later of their first words. -/
theorem Meets.isMeetingPoint (h : d.Meets other) :
    d.IsMeetingPoint other (max d.encoding.val other.encoding.val : Nat) := by
  have hends := meets_iff.mp h
  have hd := d.first_lt_stop
  have hother := other.first_lt_stop
  unfold first at hends hd hother
  constructor
  case mem =>
    unfold InRange first
    omega
  case mem_other =>
    unfold InRange first
    omega
  case least =>
    intro y hy hy'
    unfold InRange first at hy hy'
    omega

/-! ## Ranges of clean definitions -/

/-- Where two ranges meet, the shorter one lies in the longer one. -/
theorem within_of_meets (h : d.IsClean) (hother : other.IsClean) (hmeets : d.Meets other)
    (hle : d.freeBits ≤ other.freeBits) : d.Within other := by
  obtain ⟨k, p, -, -, hencoding, hstop⟩ := h.aligned
  obtain ⟨l, q, -, -, hencoding', hstop'⟩ := hother.aligned
  -- The length of a range is the number of free bit patterns.
  have hlength : d.stop = d.encoding.val + d.freeBits + 1 := rfl
  have hlength' : other.stop = other.encoding.val + other.freeBits + 1 := rfl
  have hpowers : 2 ^ k ≤ 2 ^ l := by
    rw [Nat.mul_succ] at hstop hstop'
    omega
  have hkl : k ≤ l := (Nat.pow_le_pow_iff_right (by decide)).mp hpowers
  have hends := meets_iff.mp hmeets
  rw [first, first, hencoding, hencoding', hstop, hstop'] at hends
  rw [within_iff, first, first, hencoding, hencoding', hstop, hstop']
  exact aligned_within hkl hends.1 hends.2

/-- **Nested or apart.**  Two clean definitions either have ranges without a number in common, or
the range of one lies in that of the other, which has at least as many free bits.  Of ranges that
meet, each lies in the other exactly if it has no more free bits.  The ranges are equal exactly if
encoding and mask are, and the least number that they have in common is the larger one of the
encodings. -/
theorem ranges_nested_or_apart (h : d.IsClean) (hother : other.IsClean) :
    (¬ d.Meets other ∨ (d.Within other ∧ d.freeBits ≤ other.freeBits) ∨
      (other.Within d ∧ other.freeBits ≤ d.freeBits)) ∧
    (d.Meets other → (d.Within other ↔ d.freeBits ≤ other.freeBits) ∧
      (other.Within d ↔ other.freeBits ≤ d.freeBits)) ∧
    ((∀ z, d.InRange z ↔ other.InRange z) ↔ d.sameSlot other = true) ∧
    (d.Meets other → d.IsMeetingPoint other (max d.encoding.val other.encoding.val : Nat)) := by
  refine ⟨?_, ?_, sameSlot_iff_inRange.symm, Meets.isMeetingPoint⟩
  · by_cases hmeets : d.Meets other
    · rcases Nat.le_total d.freeBits other.freeBits with hle | hle
      · exact Or.inr (Or.inl ⟨within_of_meets h hother hmeets hle, hle⟩)
      · exact Or.inr (Or.inr ⟨within_of_meets hother h hmeets.symm hle, hle⟩)
    · exact Or.inl hmeets
  · intro hmeets
    exact ⟨⟨Within.freeBits_le, within_of_meets h hother hmeets⟩,
      ⟨Within.freeBits_le, within_of_meets hother h hmeets.symm⟩⟩

/-- Of two ranges that meet at the start of the shorter one, the shorter lies in the longer. -/
theorem within_entry_pattern :
    let narrow := Catalog.entry 0x1340 0xFFF0 .e 0 0 "STORE" "i" ""
    let wide := Catalog.entry 0x1000 0xF000 .b 0 0 "MOVE" "" ""
    narrow.IsClean ∧ wide.IsClean ∧ narrow.Meets wide ∧ narrow.Within wide ∧
      ¬ wide.Within narrow ∧ narrow.IsMeetingPoint wide 0x1340 := by
  intro narrow wide
  have hnarrow : narrow.IsClean := isClean_iff.mpr (by decide)
  have hwide : wide.IsClean := isClean_iff.mpr (by decide)
  have hmeets : narrow.Meets wide := ⟨0x1345, by decide, by decide⟩
  obtain ⟨-, hnested, -, hpoint⟩ := ranges_nested_or_apart hnarrow hwide
  obtain ⟨hin, hout⟩ := hnested hmeets
  exact ⟨hnarrow, hwide, hmeets, hin.mpr (by decide), fun h => absurd (hout.mp h) (by decide),
    hpoint hmeets⟩

end Definition

end WordAtlas
