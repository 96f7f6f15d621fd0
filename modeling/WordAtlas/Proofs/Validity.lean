import WordAtlas.Catalog.Fault
import WordAtlas.Proofs.Range

/-!
# Valid catalogs

The examination of catalogs reports faults entry by entry, and what it reports about one entry
depends on which entries before it were accepted.  This file says the same without any order.  A
catalog is *well formed* when every entry is clean and keeps to the vocabularies and no two entries
share a word; the catalogs as a whole are *valid* when each of them is well formed, the catch-all is
one definition that claims every word, and every overlay entry renames an entry of the base.

The main statement is `validate_exact`: the examination accepts the valid catalogs and refuses all
others.  An entry at fault claims nothing, and of several base entries with one encoding and mask
only the last is looked at.  Neither can hide a violation: before the first fault every entry is
accepted, and in a well-formed base no two entries have the same encoding and mask.
-/

namespace WordAtlas

namespace Definition

/-- Two definitions that have no word in common. -/
def Apart (d other : Definition) : Prop :=
  ∀ w : Word, ¬ (d.covers w.val = true ∧ other.covers w.val = true)

/-- A definition that says what another one says, under a mnemonic, a display string and an action
string of its own. -/
structure Renames (d original : Definition) : Prop where
  encoding : d.encoding = original.encoding
  mask : d.mask = original.mask
  format : d.format = original.format
  xCount : d.xCount = original.xCount
  yCount : d.yCount = original.yCount
  flow : d.flow = original.flow
  conditional : d.conditional = original.conditional
  delaySlot : d.delaySlot = original.delaySlot

/-- To be apart is mutual. -/
theorem Apart.symm {d other : Definition} (h : d.Apart other) : other.Apart d :=
  fun w hw => h w ⟨hw.2, hw.1⟩

/-- A definition renames itself. -/
theorem Renames.refl (d : Definition) : d.Renames d :=
  ⟨rfl, rfl, rfl, rfl, rfl, rfl, rfl, rfl⟩

/-- To rename is mutual. -/
theorem Renames.symm {d other : Definition} (h : d.Renames other) : other.Renames d :=
  ⟨h.encoding.symm, h.mask.symm, h.format.symm, h.xCount.symm, h.yCount.symm, h.flow.symm,
    h.conditional.symm, h.delaySlot.symm⟩

/-- A new name of a new name is a new name. -/
theorem Renames.trans {d other third : Definition} (h : d.Renames other)
    (h' : other.Renames third) : d.Renames third :=
  ⟨h.encoding.trans h'.encoding, h.mask.trans h'.mask, h.format.trans h'.format,
    h.xCount.trans h'.xCount, h.yCount.trans h'.yCount, h.flow.trans h'.flow,
    h.conditional.trans h'.conditional, h.delaySlot.trans h'.delaySlot⟩

/-- A definition under a new name claims the same words. -/
theorem Renames.covers_eq {d original : Definition} (h : d.Renames original) (z : Int) :
    d.covers z = original.covers z :=
  covers_congr h.encoding h.mask z

end Definition

namespace Catalog

/-- A catalog that divides the words it claims among its entries, all of them written in the
vocabularies. -/
structure WellFormed (catalog : Catalog) : Prop where
  clean : ∀ d ∈ catalog, d.IsClean
  apart : catalog.Pairwise Definition.Apart
  display : ∀ d ∈ catalog, ∀ c ∈ d.display.toList, c ∈ Token.display.map Prod.fst
  action : ∀ d ∈ catalog, ∀ c ∈ d.action.toList, c ∈ Token.action.map Prod.fst

/-- In a well-formed catalog a word has at most one owner. -/
theorem WellFormed.owner_unique {catalog : Catalog} (h : catalog.WellFormed) {d other : Definition}
    (hd : d ∈ catalog) (hother : other ∈ catalog) {w : Word} (hw : d.covers w.val = true)
    (hw' : other.covers w.val = true) : d = other := by
  have hsame : catalog.Pairwise fun a b =>
      a.covers w.val = true → b.covers w.val = true → a = b :=
    h.apart.imp fun hapart ha hb => absurd ⟨ha, hb⟩ (hapart w)
  have hflip : catalog.Pairwise (flip fun a b =>
      a.covers w.val = true → b.covers w.val = true → a = b) :=
    hsame.imp fun heq hb ha => (heq ha hb).symm
  exact hsame.forall_of_forall_of_flip (fun _ _ _ _ => rfl) hflip hd hother hw hw'

/-! ## The claims of entries -/

/-- Two claims do not meet exactly if one of them stops before the other begins. -/
theorem meeting?_eq_none_iff {d other : Definition} :
    meeting? d other = none ↔ ¬ (d.first < other.stop ∧ other.first < d.stop) := by
  unfold meeting?
  split <;> simp_all

/-- The claims of clean definitions do not meet exactly if the definitions have no word in
common. -/
theorem meeting?_eq_none_iff_apart {d other : Definition} (hd : d.IsClean)
    (hother : other.IsClean) : meeting? d other = none ↔ d.Apart other := by
  rw [meeting?_eq_none_iff, ← Definition.exists_covers_both_iff hd hother, not_exists]
  rfl

/-- A definition clashes with none exactly if its claim meets no claim of theirs. -/
theorem clash?_eq_none_iff {d : Definition} {others : List Definition} :
    clash? d others = none ↔ ∀ other ∈ others, meeting? d other = none := by
  induction others with
  | nil => simp [clash?]
  | cons other rest ih =>
      rw [clash?, List.forall_mem_cons, ← ih]
      cases hmeet : meeting? d other with
      | none => simp
      | some word =>
          cases clash? d rest with
          | none => simp
          | some found => by_cases hless : found.1 < word <;> simp [hless]

/-- The claim of an entry is in order when the entry is clean and apart from the accepted ones. -/
theorem claimFault?_eq_none_iff {accepted : List Definition} {d : Definition}
    (haccepted : ∀ other ∈ accepted, other.IsClean) :
    claimFault? accepted d = none ↔ d.IsClean ∧ ∀ other ∈ accepted, d.Apart other := by
  rw [Definition.isClean_iff]
  unfold claimFault?
  by_cases hhigh : Mask.isPrefix d.mask = true
  · by_cases hfits : d.fitsMask = true
    · have hclean : d.IsClean := Definition.isClean_iff.mpr ⟨hhigh, hfits⟩
      have hclash : clash? d accepted = none ↔ ∀ other ∈ accepted, d.Apart other := by
        rw [clash?_eq_none_iff]
        exact forall₂_congr fun other hother =>
          meeting?_eq_none_iff_apart hclean (haccepted other hother)
      simp [hhigh, hfits, hclash]
    · simp [hhigh, hfits]
  · simp [hhigh]

/-- The claims of a catalog are in order when its entries are clean, apart from each other and apart
from the entries accepted before. -/
theorem claimFaultsAfter_eq_nil_iff {accepted : List Definition} {catalog : Catalog}
    (haccepted : ∀ other ∈ accepted, other.IsClean) :
    claimFaultsAfter accepted catalog = [] ↔
      (∀ d ∈ catalog, d.IsClean) ∧ catalog.Pairwise Definition.Apart ∧
        ∀ d ∈ catalog, ∀ other ∈ accepted, d.Apart other := by
  induction catalog generalizing accepted with
  | nil => simp [claimFaultsAfter]
  | cons d rest ih =>
      have hhead := claimFault?_eq_none_iff (d := d) haccepted
      rw [claimFaultsAfter]
      cases hfault : claimFault? accepted d with
      | some fault =>
          -- The entry is at fault, so it is not clean or not apart from an accepted one.
          rw [hfault] at hhead
          constructor
          · simp
          · intro h
            obtain ⟨hclean, -, hapart⟩ := h
            have := hhead.mpr ⟨hclean d List.mem_cons_self, hapart d List.mem_cons_self⟩
            cases this
      | none =>
          obtain ⟨hclean, hapart⟩ := hhead.mp hfault
          have hmore : ∀ other ∈ d :: accepted, other.IsClean :=
            List.forall_mem_cons.mpr ⟨hclean, haccepted⟩
          simp only [ih hmore, List.pairwise_cons, List.forall_mem_cons]
          constructor
          · intro h
            obtain ⟨hrest, hpairs, hbefore⟩ := h
            exact ⟨⟨hclean, hrest⟩, ⟨fun other ho => (hbefore other ho).1.symm, hpairs⟩, hapart,
              fun other ho => (hbefore other ho).2⟩
          · intro h
            obtain ⟨⟨-, hrest⟩, ⟨hfirst, hpairs⟩, -, hbefore⟩ := h
            exact ⟨hrest, hpairs, fun other ho => ⟨(hfirst other ho).symm, hbefore other ho⟩⟩

end Catalog

namespace Token

/-- A character has an entry exactly if it is among those listed. -/
theorem isSome_lookup_iff {β : Type} {entries : List (Char × β)} {c : Char} :
    (entries.lookup c).isSome = true ↔ c ∈ entries.map Prod.fst := by
  rw [List.lookup_isSome_iff, List.mem_map]
  constructor
  · intro h
    obtain ⟨entry, hmem, heq⟩ := h
    exact ⟨entry, hmem, (beq_iff_eq.mp heq).symm⟩
  · intro h
    obtain ⟨entry, hmem, rfl⟩ := h
    exact ⟨entry, hmem, beq_self_eq_true _⟩

/-- No string has a fault exactly if the vocabularies list every character of every string. -/
theorem faults_eq_nil_iff {definitions : List Definition} :
    faults definitions = [] ↔
      (∀ d ∈ definitions, ∀ c ∈ d.display.toList, c ∈ display.map Prod.fst) ∧
      ∀ d ∈ definitions, ∀ c ∈ d.action.toList, c ∈ action.map Prod.fst := by
  simp only [faults, List.flatMap_eq_nil_iff, faultsOf_eq_nil_iff, displayKind?, actionKind?,
    isSome_lookup_iff]
  constructor
  · intro h
    exact ⟨fun d hd => (h d hd).1, fun d hd => (h d hd).2⟩
  · intro h d hd
    exact ⟨h.1 d hd, h.2 d hd⟩

end Token

namespace Catalog

/-- A catalog has no faults exactly if it is well-formed. -/
theorem faults_eq_nil_iff {catalog : Catalog} : faults catalog = [] ↔ catalog.WellFormed := by
  have hnone : ∀ other ∈ ([] : List Definition), other.IsClean := by simp
  rw [faults, List.append_eq_nil_iff, claimFaultsAfter_eq_nil_iff hnone, List.map_eq_nil_iff,
    Token.faults_eq_nil_iff]
  constructor
  · intro h
    obtain ⟨⟨hclean, hapart, -⟩, hdisplay, haction⟩ := h
    exact ⟨hclean, hapart, hdisplay, haction⟩
  · intro h
    exact ⟨⟨h.clean, h.apart, by simp⟩, h.display, h.action⟩

end Catalog

/-! ## The renaming of base entries -/

namespace Overlay

/-- Two definitions of one encoding and mask agree in all traits when one renames the other. -/
theorem renames_iff {d original : Definition} :
    d.Renames original ↔ d.sameSlot original = true ∧
      ∀ trait ∈ Trait.all, Trait.agrees d original trait = true := by
  simp only [Definition.sameSlot, Bool.and_eq_true, beq_iff_eq, Trait.all, List.forall_mem_cons,
    Trait.agrees, List.not_mem_nil, false_imp_iff, implies_true, and_true]
  constructor
  · intro h
    exact ⟨⟨h.encoding, h.mask⟩, h.format, h.xCount, h.yCount, h.flow, h.conditional, h.delaySlot⟩
  · intro h
    obtain ⟨⟨hencoding, hmask⟩, hformat, hx, hy, hflow, hconditional, hdelay⟩ := h
    exact ⟨hencoding, hmask, hformat, hx, hy, hflow, hconditional, hdelay⟩

/-- The base entry with a given encoding and mask does not depend on which of several is taken: a
well-formed base has only one. -/
theorem renamed?_eq_some {base : Catalog} (hbase : base.WellFormed) {d original : Definition}
    (hmem : original ∈ base) (hslot : d.sameSlot original = true) :
    renamed? base.reverse d = some original := by
  have hfound : (renamed? base.reverse d).isSome = true :=
    List.find?_isSome.mpr ⟨original, List.mem_reverse.mpr hmem, hslot⟩
  obtain ⟨found, hfound⟩ := Option.isSome_iff_exists.mp hfound
  have hfoundMem : found ∈ base := List.mem_reverse.mp (List.mem_of_find?_eq_some hfound)
  have hfoundSlot : d.sameSlot found = true := List.find?_some hfound
  simp only [Definition.sameSlot, Bool.and_eq_true, beq_iff_eq] at hslot hfoundSlot
  -- Both entries claim the encoding that they share.
  have hclaim := Definition.covers_encoding (hbase.clean original hmem)
  have hclaim' : found.covers original.encoding.val = true := by
    rw [Definition.covers_congr (hfoundSlot.1.symm.trans hslot.1)
      (hfoundSlot.2.symm.trans hslot.2)]
    exact hclaim
  rw [hfound, hbase.owner_unique hfoundMem hmem hclaim' hclaim]

/-- An overlay entry is without fault when it renames an entry of the base. -/
theorem faultsOf_eq_nil_iff {base : Catalog} (hbase : base.WellFormed) {d : Definition} :
    faultsOf base.reverse d = [] ↔ ∃ original ∈ base, d.Renames original := by
  have hagree : ∀ original, ((Trait.all.filter fun trait => !Trait.agrees d original trait).map
      (Fault.changed d original)) = [] ↔
        ∀ trait ∈ Trait.all, Trait.agrees d original trait = true := by
    intro original
    simp [List.filter_eq_nil_iff]
  constructor
  · intro h
    unfold faultsOf at h
    cases hfound : renamed? base.reverse d with
    | none => simp [hfound] at h
    | some original =>
        rw [hfound] at h
        have hmem : original ∈ base := List.mem_reverse.mp (List.mem_of_find?_eq_some hfound)
        exact ⟨original, hmem, renames_iff.mpr ⟨List.find?_some hfound, (hagree original).mp h⟩⟩
  · intro h
    obtain ⟨original, hmem, hrenames⟩ := h
    have hsame := renames_iff.mp hrenames
    rw [faultsOf, renamed?_eq_some hbase hmem hsame.1]
    exact (hagree original).mpr hsame.2

end Overlay

namespace Catalogs

/-- Catalogs from which a table can be made. -/
structure Valid (catalogs : Catalogs) : Prop where
  catchAll_only : ∃ d, catalogs.catchAll = [d] ∧ d.mask.val = 0 ∧ d.encoding.val = 0
  catchAll : catalogs.catchAll.WellFormed
  base : catalogs.base.WellFormed
  overlays : ∀ entry ∈ catalogs.overlays, entry.2.WellFormed
  renames : ∀ entry ∈ catalogs.overlays, ∀ d ∈ entry.2, ∃ original ∈ catalogs.base,
    d.Renames original

/-- A well-formed catalog is a catch-all exactly if it has one entry, without mask and without
encoding. -/
theorem isCatchAll_iff {catalog : Catalog} (h : catalog.WellFormed) :
    isCatchAll catalog = true ↔ ∃ d, catalog = [d] ∧ d.mask.val = 0 ∧ d.encoding.val = 0 := by
  unfold isCatchAll
  constructor
  · intro hshape
    split at hshape
    · rename_i d
      have hmask : d.mask.val = 0 := congrArg Fin.val (beq_iff_eq.mp hshape)
      have hfits := (h.clean d List.mem_cons_self).encoding
      rw [hmask, Nat.and_zero] at hfits
      exact ⟨d, rfl, hmask, hfits.symm⟩
    · cases hshape
  · intro h
    obtain ⟨d, rfl, hmask, -⟩ := h
    exact beq_iff_eq.mpr (Fin.ext hmask)

/-- Catalogs have no faults exactly if they are valid. -/
theorem faults_eq_nil_iff {catalogs : Catalogs} : catalogs.faults = [] ↔ catalogs.Valid := by
  have hshape : (if isCatchAll catalogs.catchAll then [] else [Fault.catchAllShape]) = [] ↔
      isCatchAll catalogs.catchAll = true := by
    cases isCatchAll catalogs.catchAll <;> simp
  simp only [faults, List.append_eq_nil_iff, hshape, List.map_eq_nil_iff, Catalog.faults_eq_nil_iff,
    List.flatMap_eq_nil_iff, Overlay.faults]
  constructor
  · intro h
    obtain ⟨⟨⟨hcatch, hcatchAll⟩, hbase⟩, hoverlays⟩ := h
    refine ⟨(isCatchAll_iff hcatchAll).mp hcatch, hcatchAll, hbase,
      fun entry hentry => (hoverlays entry hentry).1, fun entry hentry d hd => ?_⟩
    exact (Overlay.faultsOf_eq_nil_iff hbase).mp ((hoverlays entry hentry).2 d hd)
  · intro h
    refine ⟨⟨⟨(isCatchAll_iff h.catchAll).mpr h.catchAll_only, h.catchAll⟩, h.base⟩,
      fun entry hentry => ⟨h.overlays entry hentry, fun d hd => ?_⟩⟩
    exact (Overlay.faultsOf_eq_nil_iff h.base).mpr (h.renames entry hentry d hd)

/-- Catalogs are accepted exactly if they are valid. -/
theorem validate_eq_ok_iff_valid {catalogs : Catalogs} :
    catalogs.validate = .ok () ↔ catalogs.Valid := by
  rw [validate_eq_ok_iff, faults_eq_nil_iff]

/-- **The examination is exact.**  It accepts the valid catalogs and rejects all others. -/
theorem validate_exact (catalogs : Catalogs) :
    (catalogs.validate = .ok () ↔ catalogs.Valid) ∧
      ((∃ rejection, catalogs.validate = .error rejection) ↔ ¬ catalogs.Valid) := by
  refine ⟨validate_eq_ok_iff_valid, ?_⟩
  rw [← validate_eq_ok_iff_valid]
  cases catalogs.validate with
  | ok accepted => simp
  | error rejection => simp

end Catalogs

end WordAtlas
