import WordAtlas.Catalog.Shipped
import WordAtlas.Proofs.LastClaim

/-!
# Layers

Whatever overlay catalogs are given and in whatever order, a table is made of at most six catalogs:
the catch-all, the base, and for each of the four overlays the catalog that is given under it alone,
if the overlay is on.  These are the *layers*, and the definitions of a table are those of its
layers, one layer after the other.

The main statement is `build_realizes_layers`: from accepted catalogs a table is built, every word
in it belongs to the last definition of the layers that claims it, and no layer claims a word twice.
Hence neither the order in which the overlay catalogs are given nor those given under an empty or a
combined set have any influence.
-/

namespace WordAtlas

namespace Catalogs

/-! ## Layers and the definitions in force -/

/-- The layer of an overlay. -/
def layer (overlays : Option (List (OverlaySet × Catalog))) (options : OverlaySet)
    (overlay : Overlay) : Catalog :=
  if options.contains overlay then
    match overlays with
    | none => Catalog.ofOverlay overlay
    | some given => (given.lookup (OverlaySet.single overlay)).getD []
  else []

/-- The layers of a table, from the lowest to the highest. -/
def layers (catchAll base : Catalog) (overlays : Option (List (OverlaySet × Catalog)))
    (options : OverlaySet) : List Catalog :=
  [catchAll, base, layer overlays options .stack, layer overlays options .shift,
    layer overlays options .dmov, layer overlays options .specials]

/-- The catalogs in force are the layers of the overlays. -/
theorem flatMap_enabled (chosen : Overlay → Bool) (given : Overlay → Option Catalog)
    (overlays : List Overlay) :
    ((overlays.filter chosen).filterMap fun overlay => (given overlay).map (overlay, ·)).flatMap
        (·.2) =
      overlays.flatMap fun overlay => if chosen overlay then (given overlay).getD [] else [] := by
  induction overlays with
  | nil => rfl
  | cons overlay rest ih =>
      rw [List.filter_cons, List.flatMap_cons, ← ih]
      cases hchosen : chosen overlay with
      | false => simp
      | true => cases hgiven : given overlay <;> simp [hgiven]

variable (catchAll base : Catalog) (overlays : Option (List (OverlaySet × Catalog)))
  (options : OverlaySet)

/-- The layer of an overlay is the catalog that is looked up for it, if it is on. -/
theorem layer_eq (overlay : Overlay) :
    layer overlays options overlay =
      if options.contains overlay then ((ofParts catchAll base overlays).overlay? overlay).getD []
      else [] := by
  cases overlays with
  | some given => rfl
  | none =>
      have hshipped : (ofParts catchAll base none).overlay? overlay =
          some (Catalog.ofOverlay overlay) := overlay?_shipped overlay
      rw [hshipped]
      rfl

/-- The definitions in force are those of the layers, one layer after the other. -/
theorem applied_ofParts :
    (ofParts catchAll base overlays).applied options =
      (layers catchAll base overlays options).flatten := by
  unfold applied enabled OverlaySet.toList
  rw [flatMap_enabled]
  simp only [← layer_eq catchAll base overlays options]
  simp [layers, Overlay.all, ofParts]

/-! ## Layers are well formed -/

theorem wellFormed_nil : Catalog.WellFormed [] where
  clean := by simp
  apart := List.Pairwise.nil
  display := by simp
  action := by simp

/-- The layer of an overlay is empty or one of the catalogs given. -/
theorem layer_eq_nil_or_mem (overlay : Overlay) :
    layer overlays options overlay = [] ∨
      (OverlaySet.single overlay, layer overlays options overlay) ∈
        (ofParts catchAll base overlays).overlays := by
  rw [layer_eq catchAll base]
  split
  · cases hfound : (ofParts catchAll base overlays).overlay? overlay with
    | none => exact Or.inl rfl
    | some catalog => exact Or.inr (mem_of_lookup hfound)
  · exact Or.inl rfl

variable {catchAll base overlays options}

/-- Of valid catalogs every layer is well-formed. -/
theorem Valid.wellFormed_of_mem_layers (h : (ofParts catchAll base overlays).Valid)
    {catalog : Catalog} (hmem : catalog ∈ layers catchAll base overlays options) :
    catalog.WellFormed := by
  have hoverlay : ∀ overlay, (layer overlays options overlay).WellFormed := by
    intro overlay
    rcases layer_eq_nil_or_mem catchAll base overlays options overlay with hnil | hgiven
    · rw [hnil]
      exact wellFormed_nil
    · exact h.overlays _ hgiven
  simp only [layers, List.mem_cons, List.not_mem_nil, or_false] at hmem
  rcases hmem with rfl | rfl | rfl | rfl | rfl | rfl
  · exact h.catchAll
  · exact h.base
  all_goals exact hoverlay _

/-- A well-formed layer claims a word at most once. -/
theorem countP_covers_le_one {catalog : Catalog} (h : catalog.WellFormed) (w : Word) :
    catalog.countP (fun d => d.covers w.val) ≤ 1 := by
  obtain ⟨-, hapart, -, -⟩ := h
  induction hapart with
  | nil => simp
  | @cons d rest hhead _ ih =>
      rw [List.countP_cons]
      split
      · rename_i hcovers
        -- The head claims the word, so none of the others does.
        have hzero : rest.countP (fun d => d.covers w.val) = 0 := by
          rw [List.countP_eq_zero]
          intro other hother hclaim
          exact hhead other hother w ⟨hcovers, hclaim⟩
        omega
      · exact ih

/-! ## Order and foreign keys -/

/-- With distinct keys, what is given under a key is what is found under it. -/
theorem lookup_eq_some_iff_mem {entries : List (OverlaySet × Catalog)}
    (hkeys : (entries.map Prod.fst).Nodup) {key : OverlaySet} {catalog : Catalog} :
    entries.lookup key = some catalog ↔ (key, catalog) ∈ entries := by
  refine ⟨mem_of_lookup, fun hmem => ?_⟩
  obtain ⟨before, after, rfl⟩ := List.append_of_mem hmem
  refine List.lookup_eq_some_iff.mpr ⟨before, after, rfl, fun entry hentry => ?_⟩
  rw [List.map_append, List.map_cons, List.nodup_append] at hkeys
  have hne := hkeys.2.2 entry.1 (List.mem_map_of_mem hentry) key List.mem_cons_self
  exact bne_iff_ne.mpr (Ne.symm hne)

/-- With distinct keys, the order of the entries does not matter. -/
theorem lookup_eq_of_perm {entries others : List (OverlaySet × Catalog)}
    (hperm : others.Perm entries) (hkeys : (entries.map Prod.fst).Nodup) (key : OverlaySet) :
    others.lookup key = entries.lookup key := by
  have hkeys' : (others.map Prod.fst).Nodup := (hperm.map Prod.fst).nodup_iff.mpr hkeys
  apply Option.ext
  intro catalog
  rw [lookup_eq_some_iff_mem hkeys, lookup_eq_some_iff_mem hkeys', hperm.mem_iff]

/-- The order in which overlay catalogs are given does not decide whether they are valid. -/
theorem Valid.of_perm {catalogs : Catalogs} (h : catalogs.Valid)
    {others : List (OverlaySet × Catalog)} (hperm : others.Perm catalogs.overlays) :
    Valid { catalogs with overlays := others } where
  catchAll_only := h.catchAll_only
  catchAll := h.catchAll
  base := h.base
  overlays := fun entry hentry => h.overlays entry (hperm.mem_iff.mp hentry)
  renames := fun entry hentry => h.renames entry (hperm.mem_iff.mp hentry)

/-- Only the catalogs given under single overlays that are on are applied. -/
theorem applied_congr {others : List (OverlaySet × Catalog)}
    (h : ∀ overlay, options.contains overlay = true →
      others.lookup (OverlaySet.single overlay) =
        (ofParts catchAll base overlays).overlays.lookup (OverlaySet.single overlay)) :
    (ofParts catchAll base (some others)).applied options =
      (ofParts catchAll base overlays).applied options := by
  have hlayer : ∀ overlay,
      layer (some others) options overlay = layer overlays options overlay := by
    intro overlay
    rw [layer_eq catchAll base overlays]
    unfold layer
    split
    · rename_i hon
      exact congrArg (·.getD []) (h overlay hon)
    · rfl
  rw [applied_ofParts, applied_ofParts]
  simp only [layers, hlayer]

end Catalogs

namespace Table

open Catalogs

/-- A table that is made of the given layers. -/
structure Realizes (table : Table) (layers : List Catalog) : Prop where
  /-- The definitions are those of the layers. -/
  definitions : table.definitions.toList = layers.flatten
  /-- Every word belongs to the last definition that claims it. -/
  last_claim : ∀ w : Word, IsLastClaim layers.flatten w (table.index w) (table.decode w)
  /-- Within a layer a word has at most one owner. -/
  one_claim : ∀ catalog ∈ layers, ∀ w : Word, catalog.countP (fun d => d.covers w.val) ≤ 1

/-- **Layers decide the table.**  From accepted catalogs a table is built in which every word
belongs to the last definition of the layers that claims it.  Neither the order of the overlay
catalogs nor those given under a set that is no overlay in force change it. -/
theorem build_realizes_layers (catchAll base : Catalog)
    (overlays : Option (List (OverlaySet × Catalog))) (options : OverlaySet)
    (haccepted : (ofParts catchAll base overlays).validate = .ok ())
    (hfits : (layers catchAll base overlays options).flatten.length ≤ 65536) :
    ∃ table, build (ofParts catchAll base overlays) options = .ok table ∧
      table.Realizes (layers catchAll base overlays options) ∧
      (∀ others : List (OverlaySet × Catalog),
        others.Perm (ofParts catchAll base overlays).overlays →
        ((ofParts catchAll base overlays).overlays.map Prod.fst).Nodup →
        build (ofParts catchAll base (some others)) options = .ok table) ∧
      ∀ others : List (OverlaySet × Catalog),
        (ofParts catchAll base (some others)).validate = .ok () →
        (∀ overlay, options.contains overlay = true →
          others.lookup (OverlaySet.single overlay) =
            (ofParts catchAll base overlays).overlays.lookup (OverlaySet.single overlay)) →
        build (ofParts catchAll base (some others)) options = .ok table := by
  have hvalid := validate_eq_ok_iff_valid.mp haccepted
  have happlied := applied_ofParts catchAll base overlays options
  rw [← happlied] at hfits
  obtain ⟨table, hbuild, hdefinitions, hlast⟩ := exists_table haccepted hfits
  rw [happlied] at hdefinitions hlast
  refine ⟨table, hbuild, ⟨hdefinitions, hlast, ?_⟩, ?_, ?_⟩
  · intro catalog hcatalog w
    exact countP_covers_le_one (hvalid.wellFormed_of_mem_layers hcatalog) w
  · intro others hperm hkeys
    have hothers := validate_eq_ok_iff_valid.mpr (hvalid.of_perm hperm)
    have hsame := applied_congr fun overlay (_ : options.contains overlay = true) =>
      lookup_eq_of_perm hperm hkeys (OverlaySet.single overlay)
    rw [← hbuild]
    exact build_congr haccepted hothers hsame
  · intro others hothers hsame
    rw [← hbuild]
    exact build_congr haccepted hothers (applied_congr hsame)

/-- An instruction with one operand word, and one without. -/
def instructionPair : Catalog :=
  [Catalog.entry 0x1200 0xFF00 .d 1 0 "LOAD" "u" "",
   Catalog.entry 0x1340 0xFFF0 .e 0 0 "STORE" "i" ""]

/-- New names for the first of the two under two overlays, the later overlay given first, and under
all overlays together. -/
def pairRenamed : List (OverlaySet × Catalog) :=
  [(OverlaySet.single .specials, [Catalog.entry 0x1200 0xFF00 .d 1 0 "HIGH" "n" "w"]),
   (OverlaySet.full, [Catalog.entry 0x1200 0xFF00 .d 1 0 "BOTH" "d" ""]),
   (OverlaySet.single .stack, [Catalog.entry 0x1200 0xFF00 .d 1 0 "LOW" "s" ""])]

/-- The catalogs of the two instructions and their new names. -/
def pairCatalogs : Catalogs :=
  ofParts Catalog.catchAll instructionPair (some pairRenamed)

theorem validate_pairCatalogs : pairCatalogs.validate = .ok () :=
  validate_eq_ok_iff.mpr (by decide)

/-- Whatever the options, the definitions in force have room. -/
theorem length_applied_pairCatalogs (options : OverlaySet) :
    (pairCatalogs.applied options).length ≤ 65536 := by
  obtain ⟨stack, shift, dmov, specials⟩ := options
  cases stack <;> cases shift <;> cases dmov <;> cases specials <;> decide

/-- Without overlays the first instruction goes by its own name. -/
theorem lastClaim_pairCatalogs :
    IsLastClaim (pairCatalogs.applied .empty) 0x1234 1
      (Catalog.entry 0x1200 0xFF00 .d 1 0 "LOAD" "u" "") :=
  ⟨rfl, by decide, by decide⟩

/-- Without overlays the words of the second instruction are claimed by it alone. -/
theorem lastClaim_pairCatalogs_second :
    IsLastClaim (pairCatalogs.applied .empty) 0x1340 2
      (Catalog.entry 0x1340 0xFFF0 .e 0 0 "STORE" "i" "") :=
  ⟨rfl, by decide, by decide⟩

/-- With all overlays on it goes by the name that the last of them gives it. -/
theorem lastClaim_pairCatalogs_full :
    IsLastClaim (pairCatalogs.applied .full) 0x1234 4
      (Catalog.entry 0x1200 0xFF00 .d 1 0 "HIGH" "n" "w") :=
  ⟨rfl, by decide, by decide⟩

/-- With all overlays on, the last of them wins, wherever it is given. -/
theorem decode_pairCatalogs :
    pairCatalogs.validate = .ok () ∧
      (layers Catalog.catchAll instructionPair (some pairRenamed) .full).flatten.length ≤ 65536 ∧
      ∃ table, build pairCatalogs .full = .ok table ∧
        table.index 0x1234 = 4 ∧ (table.decode 0x1234).name = "HIGH" := by
  have hfits :
      (layers Catalog.catchAll instructionPair (some pairRenamed) .full).flatten.length ≤ 65536 := by
    decide
  obtain ⟨table, hbuild, hrealizes, -, -⟩ :=
    build_realizes_layers Catalog.catchAll instructionPair (some pairRenamed) .full
      validate_pairCatalogs hfits
  have hlast :
      IsLastClaim (layers Catalog.catchAll instructionPair (some pairRenamed) .full).flatten
        0x1234 4 (Catalog.entry 0x1200 0xFF00 .d 1 0 "HIGH" "n" "w") :=
    ⟨rfl, by decide, by decide⟩
  obtain ⟨hindex, hdecode⟩ := (hrealizes.last_claim 0x1234).unique hlast
  exact ⟨validate_pairCatalogs, hfits, table, hbuild, hindex, congrArg Definition.name hdecode⟩

end Table

end WordAtlas
