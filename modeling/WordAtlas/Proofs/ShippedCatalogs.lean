import Mathlib.Data.List.Chain
import WordAtlas.Catalog.Shipped
import WordAtlas.Proofs.Validity

/-!
# The shipped catalogs are valid

Whether a catalog divides its words among its entries is a question about all pairs of entries.  The
shipped catalogs are written in the order of their ranges, and then it is enough that no entry
reaches into the next one (`pairwise_apart_of_isChain`).  Whether the strings keep to the
vocabularies is asked of a vocabulary as one number with a bit for each character
(`testBit_codesOf`).  So each entry is looked at once, and the whole is a computation.

The main statement is `validate_shipped`.
-/

namespace WordAtlas

namespace Token

/-- Some characters as a number with a bit for each of their codes. -/
def codesOf (chars : List Char) : Nat :=
  chars.foldr (fun c codes => 2 ^ c.toNat ||| codes) 0

/-- The bit for the code of a character is set exactly if the character is among those given. -/
theorem testBit_codesOf {chars : List Char} {c : Char} :
    (codesOf chars).testBit c.toNat = true ↔ c ∈ chars := by
  induction chars with
  | nil => simp [codesOf]
  | cons first rest ih =>
      have hcons : codesOf (first :: rest) = 2 ^ first.toNat ||| codesOf rest := rfl
      rw [hcons, Nat.testBit_or, Nat.testBit_two_pow, Bool.or_eq_true, ih, List.mem_cons,
        decide_eq_true_iff, Char.toNat_inj, eq_comm]

/-- Whether a string is written with characters of the given codes only. -/
def isWrittenIn (codes : Nat) (s : String) : Bool :=
  s.toList.all fun c => codes.testBit c.toNat

/-- A string that is written in the codes of some characters holds no others. -/
theorem mem_of_isWrittenIn {chars : List Char} {s : String}
    (h : isWrittenIn (codesOf chars) s = true) : ∀ c ∈ s.toList, c ∈ chars := by
  intro c hc
  exact testBit_codesOf.mp (List.all_eq_true.mp h c hc)

end Token

namespace Definition

/-- The range of a definition ends before that of another one begins. -/
def Below (d later : Definition) : Prop :=
  d.stop ≤ later.first

instance : DecidableRel Below :=
  fun d later => inferInstanceAs (Decidable (d.stop ≤ later.first))

instance : Trans Below Below Below where
  trans := by
    intro d middle later h h'
    exact Nat.le_trans h (Nat.le_trans (Nat.le_of_lt middle.first_lt_stop) h')

/-- Definitions whose ranges lie one below the other have no word in common. -/
theorem Below.apart {d later : Definition} (h : d.Below later) (hd : d.IsClean)
    (hlater : later.IsClean) : d.Apart later := by
  intro w hboth
  obtain ⟨hcovers, hcovers'⟩ := hboth
  have hw := (covers_iff_range hd w).mp hcovers
  have hw' := (covers_iff_range hlater w).mp hcovers'
  unfold Below at h
  omega

/-- Whether a definition, taken by itself, can stand in a well-formed catalog. -/
def isTidy (d : Definition) : Bool :=
  Mask.isPrefix d.mask && d.fitsMask &&
    Token.isWrittenIn (Token.codesOf (Token.display.map Prod.fst)) d.display &&
    Token.isWrittenIn (Token.codesOf (Token.action.map Prod.fst)) d.action

end Definition

namespace Catalog

/-- If each range ends before the next begins, any two are apart. -/
theorem pairwise_apart_of_isChain {catalog : Catalog} (hclean : ∀ d ∈ catalog, d.IsClean)
    (h : catalog.IsChain Definition.Below) : catalog.Pairwise Definition.Apart := by
  refine h.pairwise.imp_of_mem fun {d later} hd hlater hbelow => ?_
  exact hbelow.apart (hclean d hd) (hclean later hlater)

/-- Tidy entries in the order of their ranges make a well-formed catalog. -/
theorem wellFormed_of_isChain {catalog : Catalog} (htidy : catalog.all Definition.isTidy = true)
    (h : catalog.IsChain Definition.Below) : catalog.WellFormed := by
  simp only [List.all_eq_true, Definition.isTidy, Bool.and_eq_true] at htidy
  have hclean : ∀ d ∈ catalog, d.IsClean := fun d hd => Definition.isClean_iff.mpr (htidy d hd).1.1
  exact {
    clean := hclean
    apart := pairwise_apart_of_isChain hclean h
    display := fun d hd => Token.mem_of_isWrittenIn (htidy d hd).1.2
    action := fun d hd => Token.mem_of_isWrittenIn (htidy d hd).2 }

/-- The shipped catch-all is well-formed. -/
theorem wellFormed_catchAll : catchAll.WellFormed :=
  wellFormed_of_isChain (by decide +kernel) (by decide +kernel)

/-- The shipped base is well-formed. -/
theorem wellFormed_base : base.WellFormed :=
  wellFormed_of_isChain (by decide +kernel) (by decide +kernel)

/-- The shipped overlay catalogs are well-formed. -/
theorem wellFormed_ofOverlay (overlay : Overlay) : (ofOverlay overlay).WellFormed := by
  cases overlay
  all_goals exact wellFormed_of_isChain (by decide +kernel) (by decide +kernel)

/-- Every entry of a shipped overlay catalog renames an entry of the base. -/
theorem renames_ofOverlay (overlay : Overlay) :
    ∀ d ∈ ofOverlay overlay, ∃ original ∈ base, d.Renames original := by
  have hfaults : Overlay.faults base (ofOverlay overlay) = [] := by
    cases overlay
    all_goals exact List.isEmpty_iff.mp (by decide +kernel)
  intro d hd
  exact (Overlay.faultsOf_eq_nil_iff wellFormed_base).mp (List.flatMap_eq_nil_iff.mp hfaults d hd)

end Catalog

namespace Catalogs

/-- The shipped overlay catalogs are given under their overlays alone. -/
theorem mem_shipped_overlays {entry : OverlaySet × Catalog} (h : entry ∈ shipped.overlays) :
    ∃ overlay, entry = (OverlaySet.single overlay, Catalog.ofOverlay overlay) := by
  obtain ⟨overlay, -, rfl⟩ := List.mem_map.mp h
  exact ⟨overlay, rfl⟩

/-- The shipped catalogs are valid. -/
theorem valid_shipped : shipped.Valid where
  catchAll_only := ⟨_, rfl, rfl, rfl⟩
  catchAll := Catalog.wellFormed_catchAll
  base := Catalog.wellFormed_base
  overlays := by
    intro entry hentry
    obtain ⟨overlay, rfl⟩ := mem_shipped_overlays hentry
    exact Catalog.wellFormed_ofOverlay overlay
  renames := by
    intro entry hentry
    obtain ⟨overlay, rfl⟩ := mem_shipped_overlays hentry
    exact Catalog.renames_ofOverlay overlay

/-- **The shipped catalogs are accepted.** -/
theorem validate_shipped : shipped.validate = .ok () :=
  validate_eq_ok_iff_valid.mpr valid_shipped

/-- Whatever overlays are on, the definitions in force have positions. -/
theorem length_applied_shipped (options : OverlaySet) :
    (shipped.applied options).length ≤ 65536 := by
  obtain ⟨stack, shift, dmov, specials⟩ := options
  cases stack <;> cases shift <;> cases dmov <;> cases specials <;> decide +kernel

end Catalogs

end WordAtlas
