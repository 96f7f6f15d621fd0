import Mathlib.Data.List.Perm.Basic
import WordAtlas.Proofs.EqualRuns

/-!
# The order of authoring

Both the examination of catalogs and the making of a table go through lists in order: the first
claim on a word counts in the one, the last claim in the other.  Still, the order in which the
entries of a base or of an overlay catalog are written, and the order in which the overlay catalogs
are given, do not matter.

For the examination this is plain once it is said without order (`Valid.of_reordered`).  For the
table the key is that a well-formed catalog has at most one entry for a word.  So the entries of a
layer that claim a word are the same list in any order (`claimants_eq_of_perm`), the definitions in
force that claim it are so too, and the last of them owns the word (`getLast?_claimants`).
Positions may differ, but runs with their definitions do not, because built tables tell their
definitions apart.  The main statement is `authoring_order_irrelevant`.
-/

namespace WordAtlas

/-- The definitions of a sequence that claim a word, in order. -/
def claimants (w : Word) (definitions : List Definition) : List Definition :=
  definitions.filter fun d => d.covers w.val

/-- Those that claim a word among two sequences are those of the first and then those of the
second. -/
theorem claimants_append (w : Word) (definitions more : List Definition) :
    claimants w (definitions ++ more) = claimants w definitions ++ claimants w more :=
  List.filter_append _ _

/-- A definition in front that claims the word is the first of those that do. -/
theorem claimants_cons_of_covers {w : Word} {d : Definition} (h : d.covers w.val = true)
    (definitions : List Definition) :
    claimants w (d :: definitions) = d :: claimants w definitions :=
  List.filter_cons_of_pos h

/-- The owner of a word is the last of those that claim it. -/
theorem IsLastClaim.getLast?_claimants {definitions : List Definition} {w : Word} {position : Nat}
    {d : Definition} (h : IsLastClaim definitions w position d) :
    (claimants w definitions).getLast? = some d := by
  have hbehind : claimants w (definitions.drop (position + 1)) = [] := by
    refine List.filter_eq_nil_iff.mpr fun later hlater => ?_
    rw [h.none_later later hlater]
    exact Bool.false_ne_true
  have hsplit : claimants w definitions = claimants w (definitions.take position) ++ [d] := by
    calc claimants w definitions
        = claimants w (definitions.take position ++ d :: definitions.drop (position + 1)) :=
          congrArg (claimants w) (eq_take_append_cons_drop h.at_position)
      _ = claimants w (definitions.take position) ++
            d :: claimants w (definitions.drop (position + 1)) := by
          rw [claimants_append, claimants_cons_of_covers h.covers]
      _ = claimants w (definitions.take position) ++ [d] := by rw [hbehind]
  rw [hsplit, List.getLast?_concat]

namespace Catalog

variable {catalog other : Catalog}

/-- In another order the entries of a well-formed catalog make a well-formed catalog. -/
theorem WellFormed.of_perm (h : catalog.WellFormed) (hperm : other.Perm catalog) :
    other.WellFormed where
  clean := fun d hd => h.clean d (hperm.mem_iff.mp hd)
  apart := (hperm.pairwise_iff fun hapart => hapart.symm).mpr h.apart
  display := fun d hd => h.display d (hperm.mem_iff.mp hd)
  action := fun d hd => h.action d (hperm.mem_iff.mp hd)

/-- In a well-formed catalog at most one entry claims a word, and a list with at most one item is
the same in any order. -/
theorem WellFormed.claimants_eq_of_perm (h : catalog.WellFormed) (hperm : other.Perm catalog)
    (w : Word) : claimants w other = claimants w catalog := by
  have hone := Catalogs.countP_covers_le_one h w
  rw [List.countP_eq_length_filter] at hone
  have hkept : (claimants w other).Perm (claimants w catalog) := hperm.filter _
  change (claimants w catalog).length ≤ 1 at hone
  cases hclaimants : claimants w catalog with
  | nil =>
      rw [hclaimants] at hkept
      exact hkept.eq_nil
  | cons d rest =>
      rw [hclaimants, List.length_cons] at hone
      obtain rfl : rest = [] := List.eq_nil_of_length_eq_zero (by omega)
      rw [hclaimants] at hkept
      exact List.perm_singleton.mp hkept

end Catalog

/-- Layer by layer, the order of entries does not change which definitions claim a word, nor the
order of these. -/
theorem claimants_flatten_eq_of_perm {layers others : List Catalog}
    (h : List.Forall₂ List.Perm others layers) (hwell : ∀ catalog ∈ layers, catalog.WellFormed)
    (w : Word) : claimants w others.flatten = claimants w layers.flatten := by
  induction h with
  | nil => rfl
  | cons hperm htail ih =>
      obtain ⟨hhead, hrest⟩ := List.forall_mem_cons.mp hwell
      rw [List.flatten_cons, List.flatten_cons, claimants_append, claimants_append,
        hhead.claimants_eq_of_perm hperm w, ih hrest]

namespace Catalogs

/-- Two overlay catalogs under one key with the same entries, the entries in any order. -/
def SameEntries (given original : OverlaySet × Catalog) : Prop :=
  given.1 = original.1 ∧ given.2.Perm original.2

/-- The same catalogs in another order of authoring: of the entries of the base, of the entries of
each overlay catalog, and of the overlay catalogs. -/
structure Reordered (catalogs other : Catalogs) : Prop where
  catchAll : other.catchAll = catalogs.catchAll
  base : other.base.Perm catalogs.base
  overlays : ∃ given, other.overlays.Perm given ∧
    List.Forall₂ SameEntries given catalogs.overlays

variable {catalogs other : Catalogs}

/-- To have the same entries is mutual. -/
theorem SameEntries.symm {given original : OverlaySet × Catalog} (h : SameEntries given original) :
    SameEntries original given :=
  ⟨h.1.symm, h.2.symm⟩

/-- To be in another order is mutual. -/
theorem Reordered.symm (h : catalogs.Reordered other) : other.Reordered catalogs := by
  obtain ⟨given, hperm, hentries⟩ := h.overlays
  obtain ⟨found, hfound, hback⟩ := List.perm_comp_forall₂ hperm hentries
  refine ⟨h.catchAll.symm, h.base.symm, found, hback.symm, ?_⟩
  exact List.Forall₂.flip (hfound.imp fun _ _ hsame => hsame.symm)

/-- Every overlay catalog of the one sequence has its counterpart in the other. -/
theorem exists_sameEntries {given entries : List (OverlaySet × Catalog)}
    (h : List.Forall₂ SameEntries given entries) {entry : OverlaySet × Catalog}
    (hentry : entry ∈ given) : ∃ original ∈ entries, SameEntries entry original := by
  induction h with
  | nil => cases hentry
  | cons hsame htail ih =>
      rcases List.mem_cons.mp hentry with rfl | hlater
      · exact ⟨_, List.mem_cons_self, hsame⟩
      · obtain ⟨original, horiginal, hsame'⟩ := ih hlater
        exact ⟨original, List.mem_cons_of_mem _ horiginal, hsame'⟩

/-- Every overlay catalog has a counterpart before the reordering. -/
theorem Reordered.exists_original (h : catalogs.Reordered other) {entry : OverlaySet × Catalog}
    (hentry : entry ∈ other.overlays) :
    ∃ original ∈ catalogs.overlays, SameEntries entry original := by
  obtain ⟨given, hperm, hentries⟩ := h.overlays
  exact exists_sameEntries hentries (hperm.mem_iff.mp hentry)

/-- Reordered catalogs are as valid as they were. -/
theorem Valid.of_reordered (hvalid : catalogs.Valid) (h : catalogs.Reordered other) :
    other.Valid where
  catchAll_only := by
    rw [h.catchAll]
    exact hvalid.catchAll_only
  catchAll := by
    rw [h.catchAll]
    exact hvalid.catchAll
  base := hvalid.base.of_perm h.base
  overlays := by
    intro entry hentry
    obtain ⟨original, horiginal, hsame⟩ := h.exists_original hentry
    exact (hvalid.overlays original horiginal).of_perm hsame.2
  renames := by
    intro entry hentry d hd
    obtain ⟨original, horiginal, hsame⟩ := h.exists_original hentry
    obtain ⟨renamed, hmem, hrenames⟩ := hvalid.renames original horiginal d (hsame.2.mem_iff.mp hd)
    exact ⟨renamed, h.base.mem_iff.mpr hmem, hrenames⟩

/-- The order of authoring does not decide whether catalogs are valid. -/
theorem valid_iff_of_reordered (h : catalogs.Reordered other) : other.Valid ↔ catalogs.Valid :=
  ⟨fun hvalid => hvalid.of_reordered h.symm, fun hvalid => hvalid.of_reordered h⟩

/-- Overlay catalogs that correspond one by one have their keys in the same order. -/
theorem map_fst_eq_of_sameEntries {given entries : List (OverlaySet × Catalog)}
    (h : List.Forall₂ SameEntries given entries) :
    given.map Prod.fst = entries.map Prod.fst := by
  induction h with
  | nil => rfl
  | cons hsame htail ih => rw [List.map_cons, List.map_cons, hsame.1, ih]

/-- What is found under a key is the same up to the order of entries. -/
theorem lookup_perm_of_sameEntries {given entries : List (OverlaySet × Catalog)}
    (h : List.Forall₂ SameEntries given entries) (key : OverlaySet) :
    ((given.lookup key).getD []).Perm ((entries.lookup key).getD []) := by
  induction h with
  | nil => exact List.Perm.refl _
  | @cons first original given entries hsame htail ih =>
      rw [List.lookup_cons, List.lookup_cons, hsame.1]
      cases key == original.1 with
      | true => exact hsame.2
      | false => exact ih

/-- Reordered catalogs have the same layers up to the order of entries. -/
theorem Reordered.layers (h : catalogs.Reordered other)
    (hkeys : (catalogs.overlays.map Prod.fst).Nodup) (options : OverlaySet) :
    List.Forall₂ List.Perm (layers other.catchAll other.base (some other.overlays) options)
      (layers catalogs.catchAll catalogs.base (some catalogs.overlays) options) := by
  obtain ⟨given, hperm, hentries⟩ := h.overlays
  rw [← map_fst_eq_of_sameEntries hentries] at hkeys
  have hlayer : ∀ overlay, (layer (some other.overlays) options overlay).Perm
      (layer (some catalogs.overlays) options overlay) := by
    intro overlay
    unfold layer
    split
    · simp only [lookup_eq_of_perm hperm hkeys]
      exact lookup_perm_of_sameEntries hentries _
    · exact List.Perm.refl _
  refine .cons ?_ (.cons h.base (.cons (hlayer _) (.cons (hlayer _) (.cons (hlayer _)
    (.cons (hlayer _) .nil)))))
  rw [h.catchAll]

/-- The definitions in force are those of the layers, one layer after the other. -/
theorem applied_eq_flatten_layers (catalogs : Catalogs) (options : OverlaySet) :
    catalogs.applied options =
      (layers catalogs.catchAll catalogs.base (some catalogs.overlays) options).flatten :=
  applied_ofParts catalogs.catchAll catalogs.base (some catalogs.overlays) options

/-- Under distinct keys, the definitions in force are the same in any order of authoring. -/
theorem Reordered.applied_perm (h : catalogs.Reordered other)
    (hkeys : (catalogs.overlays.map Prod.fst).Nodup) (options : OverlaySet) :
    (other.applied options).Perm (catalogs.applied options) := by
  rw [applied_eq_flatten_layers, applied_eq_flatten_layers]
  exact List.Perm.flatten_congr (h.layers hkeys options)

/-- In valid catalogs, reordering does not change which definitions in force claim a word, nor the
order of these. -/
theorem Valid.claimants_eq_of_reordered (hvalid : catalogs.Valid) (h : catalogs.Reordered other)
    (hkeys : (catalogs.overlays.map Prod.fst).Nodup) (options : OverlaySet) (w : Word) :
    claimants w (other.applied options) = claimants w (catalogs.applied options) := by
  rw [applied_eq_flatten_layers, applied_eq_flatten_layers]
  refine claimants_flatten_eq_of_perm (h.layers hkeys options) (fun catalog hmem => ?_) w
  have hparts : (ofParts catalogs.catchAll catalogs.base (some catalogs.overlays)).Valid := hvalid
  exact hparts.wellFormed_of_mem_layers hmem

end Catalogs

namespace Table

open Catalogs

variable {table table' : Table}

/-- Tables with the same unknown words have the same number of them. -/
theorem unknownCount_congr (h : ∀ w, table.index w = 0 ↔ table'.index w = 0) :
    table.unknownCount = table'.unknownCount := by
  rw [unknownCount_eq_countP, unknownCount_eq_countP]
  refine List.countP_congr fun w _ => ?_
  rw [isUnknown, isUnknown, beq_iff_eq, beq_iff_eq]
  exact h w

/-- **The order of authoring does not matter.**  Reordered catalogs are accepted when the catalogs
are, and the tables of both decode every word alike, have as many unknown words and have the same
runs. -/
theorem authoring_order_irrelevant (catalogs other : Catalogs) (h : catalogs.Reordered other)
    (hkeys : (catalogs.overlays.map Prod.fst).Nodup) :
    (other.validate = .ok () ↔ catalogs.validate = .ok ()) ∧
      (catalogs.validate = .ok () → ∀ options, (catalogs.applied options).length ≤ 65536 →
        ∃ table table', build catalogs options = .ok table ∧ build other options = .ok table' ∧
          (∀ w, table'.decode w = table.decode w) ∧ table'.decodesLike table = true ∧
          table'.unknownCount = table.unknownCount ∧ table'.shownRuns = table.shownRuns) := by
  have hiff : other.validate = .ok () ↔ catalogs.validate = .ok () := by
    rw [validate_eq_ok_iff_valid, validate_eq_ok_iff_valid]
    exact valid_iff_of_reordered h
  refine ⟨hiff, fun haccepted options hfits => ?_⟩
  have hvalid := validate_eq_ok_iff_valid.mp haccepted
  have hfits' : (other.applied options).length ≤ 65536 := by
    rw [(h.applied_perm hkeys options).length_eq]
    exact hfits
  obtain ⟨table, hbuild, -, hlast⟩ := exists_table haccepted hfits
  obtain ⟨table', hbuild', -, hlast'⟩ := exists_table (hiff.mpr haccepted) hfits'
  have hdecode : ∀ w, table'.decode w = table.decode w := by
    intro w
    have howner := (hlast' w).getLast?_claimants
    rw [hvalid.claimants_eq_of_reordered h hkeys, (hlast w).getLast?_claimants] at howner
    exact (Option.some.inj howner).symm
  have hunknown : ∀ w, table'.index w = 0 ↔ table.index w = 0 := by
    intro w
    rw [index_eq_zero_iff hvalid hlast, index_eq_zero_iff (hvalid.of_reordered h) hlast']
    exact forall_congr' fun b => imp_congr_left h.base.mem_iff
  exact ⟨table, table', hbuild, hbuild', hdecode, decodesLike_iff.mpr hdecode,
    unknownCount_congr hunknown,
    shownRuns_eq_of_decode_eq (tellsApart_of_build hbuild') (tellsApart_of_build hbuild) hdecode⟩

/-- The two instructions and their new names, written in the opposite order. -/
def pairReordered : Catalogs where
  catchAll := Catalog.catchAll
  base := instructionPair.reverse
  overlays := pairRenamed.reverse

/-- The opposite order is another order of authoring. -/
theorem reordered_pairReordered : pairCatalogs.Reordered pairReordered where
  catchAll := rfl
  base := List.reverse_perm instructionPair
  overlays := ⟨pairRenamed, List.reverse_perm pairRenamed,
    List.forall₂_same.mpr fun _ _ => ⟨rfl, List.Perm.refl _⟩⟩

/-- In the opposite order the first instruction has another position, but the runs are the same. -/
theorem shownRuns_pairReordered :
    pairCatalogs.Reordered pairReordered ∧ (pairCatalogs.overlays.map Prod.fst).Nodup ∧
      pairCatalogs.validate = .ok () ∧ (pairCatalogs.applied .empty).length ≤ 65536 ∧
      ∃ table table', build pairCatalogs .empty = .ok table ∧
        build pairReordered .empty = .ok table' ∧
        table'.shownRuns = table.shownRuns ∧ table.index 0x1234 = 1 ∧ table'.index 0x1234 = 2 := by
  have hkeys : (pairCatalogs.overlays.map Prod.fst).Nodup := by decide
  have hfits := length_applied_pairCatalogs .empty
  obtain ⟨-, htables⟩ :=
    authoring_order_irrelevant pairCatalogs pairReordered reordered_pairReordered hkeys
  obtain ⟨table, table', hbuild, hbuild', -, -, -, hruns⟩ :=
    htables validate_pairCatalogs .empty hfits
  have hsecond : IsLastClaim (pairReordered.applied .empty) 0x1234 2
      (Catalog.entry 0x1200 0xFF00 .d 1 0 "LOAD" "u" "") := ⟨rfl, by decide, by decide⟩
  exact ⟨reordered_pairReordered, hkeys, validate_pairCatalogs, hfits, table, table', hbuild,
    hbuild', hruns, ((lastClaims_of_build hbuild _).unique lastClaim_pairCatalogs).1,
    ((lastClaims_of_build hbuild' _).unique hsecond).1⟩

end Table

end WordAtlas
