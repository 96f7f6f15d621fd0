import WordAtlas.Proofs.Layers
import WordAtlas.Proofs.ShippedCatalogs

/-!
# Enough positions

A slot holds a position of sixteen bits, so a table has room for 65536 definitions.  The examination
of catalogs looks at claims and strings and does not count.  Whether accepted catalogs give a table
is therefore a question of its own, and its answer is the main statement: they do exactly when the
definitions in force are no more than there are positions (`exists_table_iff_fits`).

They can be more.  A base may divide all words into ranges of one word, and an overlay may rename
each of them.  `crowded` gives a range to each of some words and all of its entries to all four
overlays; with 13108 words it is accepted and has no table (`crowded_without_table`).
-/

namespace WordAtlas

/-- A definition that claims a single word. -/
def oneWord (w : Word) : Definition :=
  Catalog.entry w 0xFFFF .e 0 0 "OP" "" ""

theorem isClean_oneWord (w : Word) : (oneWord w).IsClean where
  mask := ⟨0, by decide, rfl⟩
  encoding := by
    have hmod : w.val &&& (2 ^ 16 - 1) = w.val % 2 ^ 16 := Nat.and_two_pow_sub_one_eq_mod w.val 16
    exact hmod.trans (Nat.mod_eq_of_lt w.isLt)

theorem freeBits_oneWord (w : Word) : (oneWord w).freeBits = 0 := by
  have hfull : Mask.freeBits 0xFFFF = 0 := by decide
  exact hfull

/-- A definition of one word claims no other. -/
theorem covers_oneWord {v w : Word} (h : (oneWord v).covers w.val = true) : w = v := by
  have hrange := (Definition.covers_iff_range (isClean_oneWord v) w).mp h
  have hfirst : (oneWord v).first = v.val := rfl
  have hstop : (oneWord v).stop = v.val + (oneWord v).freeBits + 1 := rfl
  rw [hfirst, hstop, freeBits_oneWord] at hrange
  exact Fin.ext (by omega)

/-- Different words can be claimed one by one. -/
theorem wellFormed_map_oneWord {words : List Word} (h : words.Nodup) :
    Catalog.WellFormed (words.map oneWord) where
  clean := by
    intro d hd
    obtain ⟨w, -, rfl⟩ := List.mem_map.mp hd
    exact isClean_oneWord w
  apart := by
    refine List.pairwise_map.mpr (h.imp fun {v other} hne w hboth => ?_)
    obtain ⟨hcovers, hcovers'⟩ := hboth
    exact hne ((covers_oneWord hcovers).symm.trans (covers_oneWord hcovers'))
  display := by
    intro d hd c hc
    obtain ⟨w, -, rfl⟩ := List.mem_map.mp hd
    simp [oneWord, Catalog.entry] at hc
  action := by
    intro d hd c hc
    obtain ⟨w, -, rfl⟩ := List.mem_map.mp hd
    simp [oneWord, Catalog.entry] at hc

namespace Catalogs

/-- Catalogs that claim some words one by one, in the base and once more in each overlay. -/
def crowded (words : List Word) : Catalogs :=
  ofParts Catalog.catchAll (words.map oneWord)
    (some (Overlay.all.map fun overlay => (OverlaySet.single overlay, words.map oneWord)))

/-- Distinct words make valid catalogs. -/
theorem valid_crowded {words : List Word} (h : words.Nodup) : (crowded words).Valid where
  catchAll_only := ⟨_, rfl, rfl, rfl⟩
  catchAll := Catalog.wellFormed_catchAll
  base := wellFormed_map_oneWord h
  overlays := by
    intro entry hentry
    obtain ⟨overlay, -, rfl⟩ := List.mem_map.mp hentry
    exact wellFormed_map_oneWord h
  renames := by
    intro entry hentry d hd
    obtain ⟨overlay, -, rfl⟩ := List.mem_map.mp hentry
    exact ⟨d, hd, Definition.Renames.refl d⟩

/-- With all overlays on, each word has five definitions, and the catch-all comes on top. -/
theorem length_applied_crowded (words : List Word) :
    ((crowded words).applied .full).length = 5 * words.length + 1 := by
  have hlayer : ∀ overlay, layer
      (some (Overlay.all.map fun overlay => (OverlaySet.single overlay, words.map oneWord)))
      .full overlay = words.map oneWord := by
    intro overlay
    cases overlay <;> rfl
  rw [crowded, applied_ofParts, layers, hlayer, hlayer, hlayer, hlayer]
  simp [Catalog.catchAll]
  omega

/-- The words from 0 to 13107. -/
def lowWords : List Word :=
  (List.finRange 65536).take 13108

theorem nodup_lowWords : lowWords.Nodup :=
  (List.nodup_finRange 65536).sublist (List.take_sublist _ _)

theorem length_lowWords : lowWords.length = 13108 := by
  rw [lowWords, List.length_take, List.length_finRange]
  rfl

end Catalogs

namespace Table

open Catalogs

/-- When there are more definitions than positions, there is no table. -/
theorem build_of_too_many {catalogs : Catalogs} {options : OverlaySet}
    (haccepted : catalogs.validate = .ok ())
    (hmany : 65536 < (catalogs.applied options).length) :
    build catalogs options = .error .tooManyDefinitions := by
  rw [build_of_accepted haccepted, if_neg (Nat.not_le.mpr hmany)]

/-- A table that holds the definitions in force, and for each word the position of the last of them
that claims it. -/
structure HoldsPositions (table : Table) (inForce : List Definition) : Prop where
  definitions : table.definitions.toList = inForce
  last_claim : ∀ w, IsLastClaim inForce w (table.index w) (table.decode w)

/-- **Positions decide.**  Accepted catalogs give a table exactly when the definitions in force
are no more than there are positions; in it every word has its position.  Otherwise positions run
out. -/
theorem exists_table_iff_fits (catalogs : Catalogs) (options : OverlaySet)
    (haccepted : catalogs.validate = .ok ()) :
    ((∃ table, build catalogs options = .ok table ∧
        table.HoldsPositions (catalogs.applied options)) ↔
      (catalogs.applied options).length ≤ 65536) ∧
    (build catalogs options = .error .tooManyDefinitions ↔
      65536 < (catalogs.applied options).length) := by
  constructor
  · constructor
    · intro h
      obtain ⟨table, hbuild, -⟩ := h
      exact fits_of_build hbuild
    · intro hfits
      obtain ⟨table, hbuild, hdefinitions, hlast⟩ := exists_table haccepted hfits
      exact ⟨table, hbuild, hdefinitions, hlast⟩
  · constructor
    · intro hfailed
      apply Nat.lt_of_not_le
      intro hfits
      obtain ⟨table, hbuild, -⟩ := exists_table haccepted hfits
      rw [hfailed] at hbuild
      cases hbuild
    · exact build_of_too_many haccepted

/-- The shipped catalogs give a table with all overlays on. -/
theorem holdsPositions_shipped :
    shipped.validate = .ok () ∧
      ∃ table, build shipped .full = .ok table ∧
        table.HoldsPositions (shipped.applied .full) :=
  ⟨validate_shipped,
    (exists_table_iff_fits shipped .full validate_shipped).1.mpr (length_applied_shipped .full)⟩

/-- **Accepted, but without table.**  The catch-all and five definitions for each of 13108 words
need five positions more than there are. -/
theorem crowded_without_table :
    (crowded lowWords).validate = .ok () ∧ ((crowded lowWords).applied .full).length = 65541 ∧
      build (crowded lowWords) .full = .error .tooManyDefinitions := by
  have haccepted : (crowded lowWords).validate = .ok () :=
    validate_eq_ok_iff_valid.mpr (valid_crowded nodup_lowWords)
  have hlength : ((crowded lowWords).applied .full).length = 65541 := by
    rw [length_applied_crowded, length_lowWords]
  exact ⟨haccepted, hlength, build_of_too_many haccepted (by rw [hlength]; decide)⟩

end Table

end WordAtlas
