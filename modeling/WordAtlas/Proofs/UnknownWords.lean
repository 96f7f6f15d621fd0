import Mathlib.Algebra.GroupWithZero.Nat
import Mathlib.Order.Interval.Finset.Fin
import WordAtlas.Proofs.WholeRanges

/-!
# Counting unknown words

A clean definition claims one word more than its free bits say as a number
(`Definition.card_words`).  The entries of a well-formed catalog share no word, so the catalog
claims as many words as its entries taken together (`WellFormed.card_words`).  What the base does
not claim is unknown, whatever overlays are on: they never claim a word of their own.

The main statement is `unknown_words_counted`: the number of unknown words can be worked out from
the masks of the base alone.
-/

namespace WordAtlas

/-- To count the elements of a finite set with a property is to count them in their order. -/
theorem card_filter_eq_countP {n : Nat} (test : Fin n → Bool) :
    (Finset.univ.filter fun a => test a = true).card = (List.finRange n).countP test := by
  rw [← List.toFinset_finRange, ← List.toFinset_filter,
    List.toFinset_card_of_nodup ((List.nodup_finRange n).filter test), List.countP_eq_length_filter]

namespace Definition

/-- The words that a definition claims. -/
def words (d : Definition) : Finset Word :=
  Finset.univ.filter fun w => d.covers w.val = true

@[simp] theorem mem_words {d : Definition} {w : Word} : w ∈ d.words ↔ d.covers w.val = true := by
  simp [words]

/-- A clean definition claims a word for each number that fits into its free bits. -/
theorem card_words {d : Definition} (h : d.IsClean) : d.words.card = d.freeBits + 1 := by
  have hend := stop_le h
  have hlt : d.encoding.val + d.freeBits < 65536 := by
    unfold stop at hend
    omega
  have hrange : d.words = Finset.Icc d.encoding ⟨d.encoding.val + d.freeBits, hlt⟩ := by
    ext w
    rw [mem_words, covers_iff_range h, Finset.mem_Icc, first, stop, Fin.le_def, Fin.le_def,
      Nat.lt_succ_iff]
  rw [hrange, Fin.card_Icc]
  simp only
  omega

end Definition

namespace Catalog

/-- The words that the entries of a catalog claim. -/
def words (catalog : Catalog) : Finset Word :=
  Finset.univ.filter fun w => ∃ d ∈ catalog, d.covers w.val = true

@[simp] theorem mem_words {catalog : Catalog} {w : Word} :
    w ∈ catalog.words ↔ ∃ d ∈ catalog, d.covers w.val = true := by
  simp [words]

theorem words_cons (d : Definition) (rest : Catalog) :
    words (d :: rest) = d.words ∪ words rest := by
  ext w
  simp

/-- Entries that share no word claim as many words together as each by itself. -/
theorem card_words_of_apart {catalog : Catalog} (hclean : ∀ d ∈ catalog, d.IsClean)
    (hapart : catalog.Pairwise Definition.Apart) :
    catalog.words.card = (catalog.map fun d => d.freeBits + 1).sum := by
  induction hapart with
  | nil => simp [words]
  | @cons d rest hhead _ ih =>
      obtain ⟨hd, hrest⟩ := List.forall_mem_cons.mp hclean
      have hdisjoint : Disjoint d.words (words rest) := by
        rw [Finset.disjoint_left]
        intro w hw hw'
        obtain ⟨other, hother, hcovers⟩ := mem_words.mp hw'
        exact hhead other hother w ⟨Definition.mem_words.mp hw, hcovers⟩
      rw [words_cons, Finset.card_union_of_disjoint hdisjoint, Definition.card_words hd, ih hrest,
        List.map_cons, List.sum_cons]

/-- A well-formed catalog claims as many words as its entries together, because no word is claimed
twice. -/
theorem WellFormed.card_words {catalog : Catalog} (h : catalog.WellFormed) :
    catalog.words.card = (catalog.map fun d => d.freeBits + 1).sum :=
  card_words_of_apart h.clean h.apart

end Catalog

namespace Table

open Catalogs

/-- The words that no instruction claims. -/
def unknownWords (table : Table) : Finset Word :=
  Finset.univ.filter fun w => table.isUnknown w = true

@[simp] theorem mem_unknownWords {table : Table} {w : Word} :
    w ∈ table.unknownWords ↔ table.isUnknown w = true := by
  simp [unknownWords]

/-- The unknown words are as many as the table says. -/
theorem card_unknownWords (table : Table) : table.unknownWords.card = table.unknownCount := by
  rw [unknownCount_eq_countP, ← card_filter_eq_countP, unknownWords]

/-- **Unknown words are what the base leaves.**  Under any choice of overlays a word is unknown when
no base entry claims it, the count of the unknown words is exact, and together with the sizes of the
ranges of the base it makes up all words. -/
theorem unknown_words_counted (catalogs : Catalogs) (options : OverlaySet)
    (haccepted : catalogs.validate = .ok ())
    (hfits : (catalogs.applied options).length ≤ 65536) :
    ∃ table, build catalogs options = .ok table ∧
      (∀ w, table.isUnknown w = true ↔ ∀ d ∈ catalogs.base, d.covers w.val = false) ∧
      table.unknownWords.card = table.unknownCount ∧
      table.unknownCount + (catalogs.base.map fun d => d.freeBits + 1).sum = 65536 := by
  have hvalid := validate_eq_ok_iff_valid.mp haccepted
  obtain ⟨table, hbuild, -, hlast⟩ := exists_table haccepted hfits
  have hunknown : ∀ w, table.isUnknown w = true ↔ ∀ d ∈ catalogs.base, d.covers w.val = false := by
    intro w
    rw [isUnknown, beq_iff_eq]
    exact index_eq_zero_iff hvalid hlast w
  refine ⟨table, hbuild, hunknown, card_unknownWords table, ?_⟩
  have hcompl : table.unknownWords = (Catalog.words catalogs.base)ᶜ := by
    ext w
    rw [mem_unknownWords, hunknown, Finset.mem_compl, Catalog.mem_words]
    simp
  calc table.unknownCount + (catalogs.base.map fun d => d.freeBits + 1).sum
      = (Catalog.words catalogs.base)ᶜ.card + (Catalog.words catalogs.base).card := by
        rw [← card_unknownWords, hcompl, hvalid.base.card_words]
    _ = Fintype.card Word := by rw [Nat.add_comm, Finset.card_add_card_compl]
    _ = 65536 := Fintype.card_fin 65536

/-- Two instructions with eight and four free bits leave 65536 - 256 - 16 words. -/
theorem unknownCount_pairCatalogs :
    pairCatalogs.validate = .ok () ∧ (pairCatalogs.applied .full).length ≤ 65536 ∧
      ∃ table, build pairCatalogs .full = .ok table ∧ table.unknownCount = 65264 ∧
        table.isUnknown 0x1400 = true ∧ table.isUnknown 0x1234 = false := by
  have hfits := length_applied_pairCatalogs .full
  obtain ⟨table, hbuild, hunknown, -, hcount⟩ :=
    unknown_words_counted pairCatalogs .full validate_pairCatalogs hfits
  have hsum : (pairCatalogs.base.map fun d => d.freeBits + 1).sum = 272 := by decide
  refine ⟨validate_pairCatalogs, hfits, table, hbuild, by omega, (hunknown _).mpr (by decide), ?_⟩
  rw [← Bool.not_eq_true, hunknown]
  decide

end Table

end WordAtlas
