import WordAtlas.Proofs.Layers
import WordAtlas.Proofs.ShippedCatalogs

/-!
# Decoding loses no bits

A word is known from its definition and its operand fields, provided that the format of the
definition has a field for every bit that the mask leaves free.  The bits that the mask fixes are
those of the encoding, and the bits of the fields can be packed again (`Format.pack_split`); under
the proviso every bit is of one kind or the other, so nothing is missing when the two are joined
(`assemble_split`).

Hence in a table from accepted catalogs of such definitions no two words have equal definitions and
equal operand fields.  The main statement, `decode_loses_no_bits`, says this of any such catalogs
and of the shipped ones, which are such.
-/

namespace WordAtlas

namespace Bits

/-- A number can be put together from two parts, its bits under a mask and its bits under another,
if each of its bits is under one of the two.  The first part keeps no bit that the second has. -/
theorem without_or_and {n mask operands : Nat}
    (h : ∀ i, n.testBit i = true → mask.testBit i = true ∨ operands.testBit i = true) :
    without (n &&& mask) operands ||| n &&& operands = n := by
  apply Nat.eq_of_testBit_eq
  intro i
  rw [Nat.testBit_or, testBit_without, Nat.testBit_and, Nat.testBit_and]
  have hbit := h i
  cases hn : n.testBit i with
  | false => simp
  | true =>
      rcases hbit hn with hmask | hoperands
      · cases operands.testBit i <;> simp [hmask]
      · simp [hoperands]

end Bits

/-- The operand bits of a format are the low bits of a word. -/
theorem Format.operandMask_eq (format : Format) : ∃ k, format.operandMask = 2 ^ k - 1 := by
  cases format
  case a => exact ⟨8, rfl⟩
  case b => exact ⟨12, rfl⟩
  case c => exact ⟨8, rfl⟩
  case d => exact ⟨8, rfl⟩
  case e => exact ⟨4, rfl⟩
  case f => exact ⟨11, rfl⟩
  case z => exact ⟨0, rfl⟩
  case w => exact ⟨16, rfl⟩

namespace Definition

/-- The word that a definition and the values of operand fields stand for: the encoding, with the
operand bits of the format cleared, and the fields in their places. -/
def assemble (d : Definition) (fields : Operands) : Nat :=
  Bits.without d.encoding.val d.format.operandMask ||| d.format.pack fields

/-- The fields of the format take up all the bits that the mask leaves free. -/
def FieldsHoldFreeBits (d : Definition) : Prop :=
  d.freeBits ≤ d.format.operandMask

instance : DecidablePred FieldsHoldFreeBits :=
  fun d => inferInstanceAs (Decidable (d.freeBits ≤ d.format.operandMask))

/-- Each bit of a word is fixed by the mask or belongs to the fields. -/
theorem fixed_or_field {d : Definition} (hclean : d.IsClean) (hfields : d.FieldsHoldFreeBits)
    (w : Word) (i : Nat) (hbit : w.val.testBit i = true) :
    d.mask.val.testBit i = true ∨ d.format.operandMask.testBit i = true := by
  obtain ⟨k, hk, hmask⟩ := hclean.mask
  obtain ⟨j, hj⟩ := d.format.operandMask_eq
  have hwide : i < 16 := Bits.lt_of_testBit hbit
  -- The free bits are the low `k` ones and the operand bits the low `j` ones.
  have hkj : k ≤ j := by
    have hle : 2 ^ k ≤ 2 ^ 16 := Nat.pow_le_pow_right (by decide) hk
    have hpos : 0 < 2 ^ j := Nat.two_pow_pos j
    unfold FieldsHoldFreeBits freeBits Mask.freeBits at hfields
    rw [hmask, hj] at hfields
    exact (Nat.pow_le_pow_iff_right (by decide : 1 < 2)).mp (by omega)
  rw [hmask, hj, Mask.testBit_prefixMask hk, Nat.testBit_two_pow_sub_one]
  by_cases hfree : k ≤ i
  · exact Or.inl (by simp [hfree, hwide])
  · exact Or.inr (by simp; omega)

/-- **Nothing is lost.**  A claimed word is put together again from the definition and its
fields. -/
theorem assemble_split {d : Definition} (hclean : d.IsClean) (hfields : d.FieldsHoldFreeBits)
    {w : Word} (hcovers : d.covers w.val = true) : d.assemble (d.format.split w) = w.val := by
  rw [assemble, Format.pack_split, ← covers_natCast_iff.mp hcovers]
  exact Bits.without_or_and (fixed_or_field hclean hfields w)

end Definition

/-- Catalogs whose definitions all have fields for their free bits. -/
structure Catalogs.FieldsHoldFreeBits (catalogs : Catalogs) : Prop where
  catchAll : ∀ d ∈ catalogs.catchAll, d.FieldsHoldFreeBits
  base : ∀ d ∈ catalogs.base, d.FieldsHoldFreeBits
  overlays : ∀ entry ∈ catalogs.overlays, ∀ d ∈ entry.2, d.FieldsHoldFreeBits

/-- A table in which each word is known from its definition and its operand fields. -/
structure Table.Lossless (table : Table) : Prop where
  /-- The word is put together from its definition and its fields. -/
  assembled : ∀ w : Word,
    w.val = (table.decode w).assemble ((table.decode w).format.split w)
  /-- Different words differ in their definitions or in their fields. -/
  distinct : ∀ v w : Word, table.decode v = table.decode w →
    (table.decode v).format.split v = (table.decode w).format.split w → v = w

namespace Catalogs

theorem FieldsHoldFreeBits.of_mem_applied {catalogs : Catalogs} (h : catalogs.FieldsHoldFreeBits)
    {options : OverlaySet} {d : Definition} (hd : d ∈ catalogs.applied options) :
    d.FieldsHoldFreeBits := by
  rcases mem_applied hd with hcatch | hbase | ⟨entry, hentry, hmem⟩
  · exact h.catchAll d hcatch
  · exact h.base d hbase
  · exact h.overlays entry hentry d hmem

/-- In the shipped catalogs the fields of every format hold all free bits. -/
theorem fieldsHoldFreeBits_shipped : shipped.FieldsHoldFreeBits where
  catchAll := by decide +kernel
  base := by decide +kernel
  overlays := by
    intro entry hentry
    obtain ⟨overlay, rfl⟩ := mem_shipped_overlays hentry
    cases overlay <;> decide +kernel

end Catalogs

namespace Table

open Catalogs

/-- If every word can be put together from its fields, definition and fields tell the words
apart. -/
theorem lossless_of_assembled {table : Table}
    (h : ∀ w : Word, w.val = (table.decode w).assemble ((table.decode w).format.split w)) :
    table.Lossless where
  assembled := h
  distinct := by
    intro v w hdecode hfields
    apply Fin.ext
    calc v.val = (table.decode v).assemble ((table.decode v).format.split v) := h v
      _ = (table.decode w).assemble ((table.decode w).format.split w) := by rw [hfields, hdecode]
      _ = w.val := (h w).symm

theorem exists_lossless_table {catalogs : Catalogs} {options : OverlaySet}
    (haccepted : catalogs.validate = .ok ()) (hfields : catalogs.FieldsHoldFreeBits)
    (hfits : (catalogs.applied options).length ≤ 65536) :
    ∃ table, build catalogs options = .ok table ∧ table.Lossless := by
  have hvalid := validate_eq_ok_iff_valid.mp haccepted
  obtain ⟨table, hbuild, -, hlast⟩ := exists_table haccepted hfits
  refine ⟨table, hbuild, lossless_of_assembled fun w => ?_⟩
  have hmem := List.mem_of_getElem? (hlast w).at_position
  exact (Definition.assemble_split (hvalid.clean_of_mem_applied hmem)
    (hfields.of_mem_applied hmem) (hlast w).covers).symm

/-- **Decoding loses no bits,** with any accepted catalogs whose formats have fields for all free
bits, and so with the shipped ones under every choice of overlays. -/
theorem decode_loses_no_bits :
    (∀ catalogs : Catalogs, catalogs.validate = .ok () → catalogs.FieldsHoldFreeBits →
      ∀ options, (catalogs.applied options).length ≤ 65536 →
        ∃ table, build catalogs options = .ok table ∧ table.Lossless) ∧
      shipped.FieldsHoldFreeBits ∧
      ∀ options, ∃ table, build shipped options = .ok table ∧ table.Lossless := by
  refine ⟨fun catalogs haccepted hfields options hfits => ?_, fieldsHoldFreeBits_shipped,
    fun options => ?_⟩
  · exact exists_lossless_table haccepted hfields hfits
  · exact exists_lossless_table validate_shipped fieldsHoldFreeBits_shipped
      (length_applied_shipped options)

/-- With two overlays that rename one instruction, its words are still told apart. -/
theorem lossless_pairCatalogs :
    pairCatalogs.validate = .ok () ∧ pairCatalogs.FieldsHoldFreeBits ∧
      (pairCatalogs.applied .full).length ≤ 65536 ∧
      ∃ table, build pairCatalogs .full = .ok table ∧ table.Lossless := by
  have hfields : pairCatalogs.FieldsHoldFreeBits := ⟨by decide, by decide, by decide⟩
  have hfits := length_applied_pairCatalogs .full
  exact ⟨validate_pairCatalogs, hfields, hfits,
    decode_loses_no_bits.1 pairCatalogs validate_pairCatalogs hfields .full hfits⟩

end Table

end WordAtlas
