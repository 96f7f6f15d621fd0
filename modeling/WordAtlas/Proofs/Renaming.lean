import WordAtlas.Proofs.Layers

/-!
# Overlays only rename

An overlay entry claims the words of the base entry that it renames, and in a valid base every word
has at most one owner.  So whatever overlays are on, and however many of them rename the same
instruction, the last claim on a word is a renaming of its owner in the base
(`renames_owner_of_isLastClaim`), and a word without owner stays with the catch-all
(`eq_catchAll_of_isLastClaim`).

The main statement, `choices_decode_alike`, compares any two choices of overlays: they decode every
word to definitions that differ at most in mnemonic, display string and action string, and the same
words are unknown.
-/

namespace WordAtlas

namespace Catalogs

variable {catalogs : Catalogs} {options : OverlaySet} {w : Word} {position : Nat} {d : Definition}

/-- The catch-all comes first; all others in force rename an entry of the base, and every entry of
the base is among them. -/
theorem Valid.applied_eq_cons (h : catalogs.Valid) (options : OverlaySet) :
    ∃ c rest, catalogs.catchAll = [c] ∧ catalogs.applied options = c :: rest ∧
      (∀ b ∈ catalogs.base, b ∈ rest) ∧
      ∀ e ∈ rest, ∃ original ∈ catalogs.base, e.Renames original := by
  obtain ⟨c, hc, -, -⟩ := h.catchAll_only
  refine ⟨c, catalogs.base ++ (catalogs.enabled options).flatMap (·.2), hc, ?_, ?_, ?_⟩
  · simp [applied, hc]
  · intro b hb
    exact List.mem_append_left _ hb
  · intro e he
    rcases List.mem_append.mp he with hbase | hoverlay
    · exact ⟨e, hbase, Definition.Renames.refl e⟩
    · obtain ⟨enabled, henabled, hmem⟩ := List.mem_flatMap.mp hoverlay
      exact h.renames _ (mem_enabled henabled) e hmem

/-- The last claim on a word that the base owns renames the owner. -/
theorem Valid.renames_owner_of_isLastClaim (h : catalogs.Valid)
    (hlast : IsLastClaim (catalogs.applied options) w position d) {owner : Definition}
    (howner : owner ∈ catalogs.base) (hw : owner.covers w.val = true) :
    position ≠ 0 ∧ d.Renames owner := by
  obtain ⟨c, rest, -, happlied, hbase, hrest⟩ := h.applied_eq_cons options
  rw [happlied] at hlast
  have hposition : position ≠ 0 := by
    intro hzero
    subst hzero
    -- The owner stands behind the catch-all and claims the word.
    have hunclaimed := hlast.none_later owner (hbase owner howner)
    rw [hw] at hunclaimed
    cases hunclaimed
  obtain ⟨behind, rfl⟩ := Nat.exists_eq_succ_of_ne_zero hposition
  have hmem : d ∈ rest := List.mem_of_getElem? hlast.at_position
  obtain ⟨original, horiginal, hrenames⟩ := hrest d hmem
  have hclaim : original.covers w.val = true := by
    rw [← hrenames.covers_eq]
    exact hlast.covers
  have hsame : original = owner := h.base.owner_unique horiginal howner hclaim hw
  subst hsame
  exact ⟨hposition, hrenames⟩

/-- The last claim on a word that the base does not own is that of the catch-all. -/
theorem Valid.eq_catchAll_of_isLastClaim (h : catalogs.Valid)
    (hlast : IsLastClaim (catalogs.applied options) w position d)
    (hnone : ∀ b ∈ catalogs.base, b.covers w.val = false) :
    position = 0 ∧ catalogs.catchAll = [d] := by
  obtain ⟨c, rest, hcatch, happlied, -, hrest⟩ := h.applied_eq_cons options
  rw [happlied] at hlast
  cases position with
  | zero =>
      have hd : c = d := Option.some.inj hlast.at_position
      exact ⟨rfl, by rw [hcatch, hd]⟩
  | succ behind =>
      have hmem : d ∈ rest := List.mem_of_getElem? hlast.at_position
      obtain ⟨original, horiginal, hrenames⟩ := hrest d hmem
      have hclaim := hlast.covers
      rw [hrenames.covers_eq, hnone original horiginal] at hclaim
      cases hclaim

/-- Under any two choices of overlays the last claims on a word differ only in names, and both are
the catch-all's or neither is. -/
theorem Valid.lastClaims_alike (h : catalogs.Valid) {options' : OverlaySet} {position' : Nat}
    {d' : Definition} (hlast : IsLastClaim (catalogs.applied options) w position d)
    (hlast' : IsLastClaim (catalogs.applied options') w position' d') :
    d.Renames d' ∧ (position = 0 ↔ position' = 0) := by
  by_cases howned : ∃ owner ∈ catalogs.base, owner.covers w.val = true
  · obtain ⟨owner, howner, hw⟩ := howned
    obtain ⟨hposition, hrenames⟩ := h.renames_owner_of_isLastClaim hlast howner hw
    obtain ⟨hposition', hrenames'⟩ := h.renames_owner_of_isLastClaim hlast' howner hw
    exact ⟨hrenames.trans hrenames'.symm, iff_of_false hposition hposition'⟩
  · have hnone : ∀ b ∈ catalogs.base, b.covers w.val = false := by
      intro b hb
      cases hcovers : b.covers w.val with
      | false => rfl
      | true => exact absurd ⟨b, hb, hcovers⟩ howned
    obtain ⟨hposition, hcatch⟩ := h.eq_catchAll_of_isLastClaim hlast hnone
    obtain ⟨hposition', hcatch'⟩ := h.eq_catchAll_of_isLastClaim hlast' hnone
    have hsame : d = d' := List.head_eq_of_cons_eq (hcatch.symm.trans hcatch')
    subst hsame
    exact ⟨Definition.Renames.refl d, iff_of_true hposition hposition'⟩

end Catalogs

namespace Table

open Catalogs

/-- **Overlays change neither coverage nor structure.** -/
theorem choices_decode_alike (catalogs : Catalogs) (options options' : OverlaySet)
    (haccepted : catalogs.validate = .ok ())
    (hfits : (catalogs.applied options).length ≤ 65536)
    (hfits' : (catalogs.applied options').length ≤ 65536) :
    ∃ table table', build catalogs options = .ok table ∧ build catalogs options' = .ok table' ∧
      ∀ w, (table.decode w).Renames (table'.decode w) ∧
        (table.isUnknown w = true ↔ table'.isUnknown w = true) := by
  have hvalid := validate_eq_ok_iff_valid.mp haccepted
  obtain ⟨table, hbuild, -, hlast⟩ := exists_table haccepted hfits
  obtain ⟨table', hbuild', -, hlast'⟩ := exists_table haccepted hfits'
  refine ⟨table, table', hbuild, hbuild', fun w => ?_⟩
  obtain ⟨hrenames, hunknown⟩ := hvalid.lastClaims_alike (hlast w) (hlast' w)
  unfold isUnknown
  rw [beq_iff_eq, beq_iff_eq]
  exact ⟨hrenames, hunknown⟩

/-- With no overlay and with all of them, two new names for one instruction change nothing else. -/
theorem choices_decode_pairCatalogs :
    pairCatalogs.validate = .ok () ∧ (pairCatalogs.applied .empty).length ≤ 65536 ∧
      (pairCatalogs.applied .full).length ≤ 65536 ∧
      ∃ table table',
        build pairCatalogs .empty = .ok table ∧ build pairCatalogs .full = .ok table' ∧
        (table.decode 0x1234).Renames (table'.decode 0x1234) ∧
        (table.isUnknown 0x1400 = true ↔ table'.isUnknown 0x1400 = true) := by
  have hfits := length_applied_pairCatalogs .empty
  have hfits' := length_applied_pairCatalogs .full
  obtain ⟨table, table', hbuild, hbuild', halike⟩ :=
    choices_decode_alike pairCatalogs .empty .full validate_pairCatalogs hfits hfits'
  exact ⟨validate_pairCatalogs, hfits, hfits', table, table', hbuild, hbuild',
    (halike 0x1234).1, (halike 0x1400).2⟩

end Table

end WordAtlas
