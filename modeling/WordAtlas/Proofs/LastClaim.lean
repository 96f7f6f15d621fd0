import WordAtlas.Proofs.PaintedTables
import WordAtlas.Proofs.Validity

/-!
# The last claim wins

A table is painted range by range, a later definition over the earlier ones.  Without ranges: the
owner of a word is the *last* definition of the sequence that claims the word.

The link between the two is `lastHolder?_eq_some`, by induction on the definitions that are still to
be painted; for clean definitions, holding a word in the range and claiming it are the same
(`Definition.covers_iff_range`).  In valid catalogs every definition in force is clean, and the
catch-all claims every word.  Hence the main statement, `exists_table`: accepted catalogs give a
table that decodes every word to the last claim on it.
-/

namespace WordAtlas

/-- The definition `d`, which stands at `position`, is the last one of the sequence that claims the
word. -/
structure IsLastClaim (definitions : List Definition) (w : Word) (position : Nat)
    (d : Definition) : Prop where
  at_position : definitions[position]? = some d
  covers : d.covers w.val = true
  none_later : ∀ later ∈ definitions.drop (position + 1), later.covers w.val = false

namespace IsLastClaim

variable {definitions : List Definition} {w : Word} {position other : Nat} {d e : Definition}

/-- Behind the last claim of a word there is none. -/
theorem not_lt (h : IsLastClaim definitions w position d) (he : definitions[other]? = some e)
    (hcovers : e.covers w.val = true) : ¬ position < other := by
  intro hlt
  have hsum : position + 1 + (other - (position + 1)) = other := by omega
  have hlater : e ∈ definitions.drop (position + 1) := by
    apply List.mem_of_getElem? (i := other - (position + 1))
    rw [List.getElem?_drop, hsum, he]
  have := h.none_later e hlater
  rw [hcovers] at this
  cases this

/-- A word has at most one last claim. -/
theorem unique (h : IsLastClaim definitions w position d) (h' : IsLastClaim definitions w other e) :
    position = other ∧ d = e := by
  have hle := h.not_lt h'.at_position h'.covers
  have hge := h'.not_lt h.at_position h.covers
  obtain rfl : position = other := by omega
  exact ⟨rfl, Option.some.inj (h.at_position.symm.trans h'.at_position)⟩

end IsLastClaim

namespace Table

/-- No definition holds a word exactly if it lies in the range of none. -/
theorem lastHolder?_eq_none {w position : Nat} {definitions : List Definition} :
    lastHolder? w position definitions = none ↔
      ∀ d ∈ definitions, ¬ (d.first ≤ w ∧ w < d.stop) := by
  induction definitions generalizing position with
  | nil => simp [lastHolder?]
  | cons d rest ih =>
      rw [lastHolder?, List.forall_mem_cons, ← @ih (position + 1)]
      cases lastHolder? w (position + 1) rest with
      | some later => simp
      | none => by_cases hrange : d.first ≤ w ∧ w < d.stop <;> simp [hrange]

/-- The last holder of a word stands where it says and has no other holder behind it. -/
theorem lastHolder?_eq_some {w position holder : Nat} {definitions : List Definition}
    (h : lastHolder? w position definitions = some holder) :
    ∃ offset d, holder = position + offset ∧ definitions[offset]? = some d ∧
      (d.first ≤ w ∧ w < d.stop) ∧
      ∀ later ∈ definitions.drop (offset + 1), ¬ (later.first ≤ w ∧ w < later.stop) := by
  induction definitions generalizing position with
  | nil => simp [lastHolder?] at h
  | cons d rest ih =>
      rw [lastHolder?] at h
      cases hlater : lastHolder? w (position + 1) rest with
      | some later =>
          simp only [hlater, Option.some.injEq] at h
          subst h
          obtain ⟨offset, e, hoffset, hat, hrange, hnone⟩ := ih hlater
          exact ⟨offset + 1, e, by omega, hat, hrange, hnone⟩
      | none =>
          -- Nothing behind `d` holds the word, so the holder is `d` itself.
          simp only [hlater, Option.ite_none_right_eq_some, Option.some.injEq] at h
          exact ⟨0, d, h.2.symm, rfl, h.1, lastHolder?_eq_none.mp hlater⟩

/-- **The last claim wins.**  In the table of clean definitions of which one claims a word, the word
decodes to the last definition that claims it. -/
theorem isLastClaim_ofDefinitions {options : OverlaySet} {definitions : List Definition}
    {hpos : 0 < definitions.length} (hclean : ∀ d ∈ definitions, d.IsClean) {w : Word}
    (hclaimed : ∃ d ∈ definitions, d.covers w.val = true) :
    IsLastClaim definitions w ((ofDefinitions options definitions hpos).index w)
      ((ofDefinitions options definitions hpos).decode w) := by
  let table := ofDefinitions options definitions hpos
  have hslot : table.index w = (lastHolder? w.val 0 definitions).getD 0 := index_ofDefinitions w
  have hdecode : definitions[table.index w]? = some (table.decode w) := by
    have hat := definitionAt?_index table w
    rw [definitionAt?, ← Array.getElem?_toList, definitions_ofDefinitions] at hat
    exact hat
  cases hholder : lastHolder? w.val 0 definitions with
  | none =>
      obtain ⟨d, hd, hcovers⟩ := hclaimed
      have hrange := (Definition.covers_iff_range (hclean d hd) w).mp hcovers
      exact absurd hrange (lastHolder?_eq_none.mp hholder d hd)
  | some holder =>
      obtain ⟨offset, d, hoffset, hat, hrange, hnone⟩ := lastHolder?_eq_some hholder
      have hindex : table.index w = offset := by
        rw [hslot, hholder, Option.getD_some]
        omega
      have hd : table.decode w = d := by
        rw [hindex, hat] at hdecode
        exact (Option.some.inj hdecode).symm
      refine ⟨hdecode, ?_, ?_⟩
      · change (table.decode w).covers w.val = true
        rw [hd]
        exact (Definition.covers_iff_range (hclean d (List.mem_of_getElem? hat)) w).mpr hrange
      · intro later hlater
        change later ∈ definitions.drop (table.index w + 1) at hlater
        rw [hindex] at hlater
        have hmem := List.mem_of_mem_drop hlater
        have hout := hnone later hlater
        rw [← Definition.covers_iff_range (hclean later hmem), Bool.not_eq_true] at hout
        exact hout

end Table

namespace Catalogs

/-- What is found under a key is among the entries. -/
theorem mem_of_lookup {entries : List (OverlaySet × Catalog)} {key : OverlaySet} {catalog : Catalog}
    (h : entries.lookup key = some catalog) : (key, catalog) ∈ entries := by
  obtain ⟨before, after, rfl, -⟩ := List.lookup_eq_some_iff.mp h
  exact List.mem_append_right _ List.mem_cons_self

/-- The catalog of an overlay in force was given under that overlay alone. -/
theorem mem_enabled {catalogs : Catalogs} {options : OverlaySet} {overlay : Overlay}
    {catalog : Catalog} (h : (overlay, catalog) ∈ catalogs.enabled options) :
    (OverlaySet.single overlay, catalog) ∈ catalogs.overlays := by
  obtain ⟨chosen, -, hfound⟩ := List.mem_filterMap.mp h
  obtain ⟨given, hgiven, heq⟩ := Option.map_eq_some_iff.mp hfound
  cases heq
  exact mem_of_lookup hgiven

/-- A definition in force is from the catch-all, the base or one of the overlay catalogs. -/
theorem mem_applied {catalogs : Catalogs} {options : OverlaySet} {d : Definition}
    (h : d ∈ catalogs.applied options) :
    d ∈ catalogs.catchAll ∨ d ∈ catalogs.base ∨ ∃ entry ∈ catalogs.overlays, d ∈ entry.2 := by
  unfold applied at h
  rcases List.mem_append.mp h with hlow | hhigh
  · rcases List.mem_append.mp hlow with hcatch | hbase
    · exact Or.inl hcatch
    · exact Or.inr (Or.inl hbase)
  · obtain ⟨enabled, henabled, hd⟩ := List.mem_flatMap.mp hhigh
    exact Or.inr (Or.inr ⟨_, mem_enabled henabled, hd⟩)

/-- The definitions in force are clean if the catalogs are valid. -/
theorem Valid.clean_of_mem_applied {catalogs : Catalogs} (h : catalogs.Valid) {options : OverlaySet}
    {d : Definition} (hd : d ∈ catalogs.applied options) : d.IsClean := by
  rcases mem_applied hd with hcatch | hbase | ⟨entry, hentry, hmem⟩
  · exact h.catchAll.clean d hcatch
  · exact h.base.clean d hbase
  · exact (h.overlays entry hentry).clean d hmem

/-- In valid catalogs every word is claimed, by the catch-all if by no other definition. -/
theorem Valid.exists_covers {catalogs : Catalogs} (h : catalogs.Valid) (options : OverlaySet)
    (w : Word) : ∃ d ∈ catalogs.applied options, d.covers w.val = true := by
  obtain ⟨d, hd, hmask, hencoding⟩ := h.catchAll_only
  refine ⟨d, ?_, Definition.covers_of_mask_zero hmask hencoding w⟩
  simp [applied, hd]

end Catalogs

namespace Table

/-- Accepted catalogs that put the same definitions into force give the same table. -/
theorem build_congr {catalogs other : Catalogs} {options : OverlaySet}
    (h : catalogs.validate = .ok ()) (h' : other.validate = .ok ())
    (happlied : other.applied options = catalogs.applied options) :
    build other options = build catalogs options := by
  rw [build_of_accepted h, build_of_accepted h']
  simp only [happlied]

/-- **Tables decode to last claims.**  A table is built from accepted catalogs unless positions run
out, and in it a word belongs to the last definition in force that claims it. -/
theorem exists_table {catalogs : Catalogs} {options : OverlaySet} (h : catalogs.validate = .ok ())
    (hfits : (catalogs.applied options).length ≤ 65536) :
    ∃ table, build catalogs options = .ok table ∧
      table.definitions.toList = catalogs.applied options ∧
      ∀ w, IsLastClaim (catalogs.applied options) w (table.index w) (table.decode w) := by
  have hvalid := Catalogs.validate_eq_ok_iff_valid.mp h
  have hbuild := @build_of_accepted _ options h
  rw [if_pos hfits] at hbuild
  refine ⟨_, hbuild, definitions_ofDefinitions, fun w => ?_⟩
  exact isLastClaim_ofDefinitions (fun d hd => hvalid.clean_of_mem_applied hd)
    (hvalid.exists_covers options w)

/-- In a table that was built, a word belongs to the last definition in force that claims it. -/
theorem lastClaims_of_build {catalogs : Catalogs} {options : OverlaySet} {table : Table}
    (h : build catalogs options = .ok table) (w : Word) :
    IsLastClaim (catalogs.applied options) w (table.index w) (table.decode w) := by
  obtain ⟨built, hbuild, -, hlast⟩ := exists_table (accepted_of_build h) (fits_of_build h)
  rw [h] at hbuild
  cases hbuild
  exact hlast w

end Table

end WordAtlas
