import WordAtlas.Proofs.MaximalRuns
import WordAtlas.Proofs.Renaming

/-!
# Whole ranges

Two definitions in force that share a word rename one entry of the base, unless one of them is the
catch-all.  So they have the same encoding and mask, and the later of them takes the whole range of
the earlier one (`Table.index_eq_iff_covers`).  No definition is ever left with a part of its range.

Hence the runs of a table can be read off its layers.  A definition owns no word exactly when a
later layer holds one with the same encoding and mask; otherwise its range is one run.  The
catch-all is left with the gaps of the base.  The main statement is `runs_are_whole_ranges`.
-/

namespace WordAtlas

/-- A stretch of words that no entry of a catalog claims and that can be made longer on neither
side. -/
structure Catalog.IsGap (catalog : Catalog) (first last : Nat) : Prop where
  first_le_last : first ≤ last
  last_lt : last < 65536
  unclaimed : ∀ w : Word, first ≤ w.val → w.val ≤ last → ∀ d ∈ catalog, d.covers w.val = false
  before : ∀ w : Word, w.val + 1 = first → ∃ d ∈ catalog, d.covers w.val = true
  behind : ∀ w : Word, w.val = last + 1 → ∃ d ∈ catalog, d.covers w.val = true

/-- Definitions of one slot claim the same words. -/
theorem Definition.covers_of_sameSlot {d other : Definition} (h : d.sameSlot other = true)
    (z : Int) : d.covers z = other.covers z := by
  simp only [sameSlot, Bool.and_eq_true, beq_iff_eq] at h
  exact covers_congr h.1 h.2 z

theorem eq_take_append_cons_drop {α : Type} {items : List α} {place : Nat} {a : α}
    (h : items[place]? = some a) : items = items.take place ++ a :: items.drop (place + 1) := by
  obtain ⟨hlt, rfl⟩ := List.getElem?_eq_some_iff.mp h
  rw [← List.drop_eq_getElem_cons hlt, List.take_append_drop]

/-- What stands before, at and behind an entry of one of several lists, taken together. -/
theorem flatten_eq_append_cons {α : Type} {lists : List (List α)} {level place : Nat}
    {items : List α} {a : α} (hitems : lists[level]? = some items) (ha : items[place]? = some a) :
    lists.flatten = ((lists.take level).flatten ++ items.take place) ++
      a :: (items.drop (place + 1) ++ (lists.drop (level + 1)).flatten) := by
  have hlists := congrArg List.flatten (eq_take_append_cons_drop hitems)
  rw [List.flatten_append, List.flatten_cons] at hlists
  calc lists.flatten
      = (lists.take level).flatten ++ (items ++ (lists.drop (level + 1)).flatten) := hlists
    _ = (lists.take level).flatten ++ ((items.take place ++ a :: items.drop (place + 1)) ++
          (lists.drop (level + 1)).flatten) := by rw [← eq_take_append_cons_drop ha]
    _ = _ := by simp

/-- Within a well-formed catalog no later entry has the encoding and mask of an earlier one. -/
theorem Catalog.WellFormed.not_sameSlot {catalog : Catalog} (h : catalog.WellFormed) {place : Nat}
    {d e : Definition} (hd : catalog[place]? = some d) (he : e ∈ catalog.drop (place + 1)) :
    ¬ e.sameSlot d = true := by
  intro hslot
  have hapart := h.apart
  rw [eq_take_append_cons_drop hd] at hapart
  have hbehind := (List.pairwise_cons.mp (List.pairwise_append.mp hapart).2.1).1
  have hcovers := Definition.covers_encoding (h.clean d (List.mem_of_getElem? hd))
  exact hbehind e he d.encoding ⟨hcovers, by rwa [Definition.covers_of_sameSlot hslot]⟩

namespace Catalogs

variable {catalogs : Catalogs} {options : OverlaySet}

/-- Of two definitions in force that share a word and are not the catch-all, one renames the other:
the base entry that they rename is the owner of the word. -/
theorem Valid.renames_of_covers_both (h : catalogs.Valid) {position other : Nat} {d e : Definition}
    (hd : (catalogs.applied options)[position]? = some d)
    (he : (catalogs.applied options)[other]? = some e) (hposition : position ≠ 0)
    (hother : other ≠ 0) {w : Word} (hdw : d.covers w.val = true) (hew : e.covers w.val = true) :
    d.Renames e := by
  obtain ⟨c, rest, -, happlied, -, hrest⟩ := h.applied_eq_cons options
  have horiginal : ∀ {place : Nat} {f : Definition}, place ≠ 0 →
      (catalogs.applied options)[place]? = some f → ∃ original ∈ catalogs.base,
        f.Renames original := by
    intro place f hplace hat
    obtain ⟨behind, rfl⟩ := Nat.exists_eq_succ_of_ne_zero hplace
    rw [happlied, List.getElem?_cons_succ] at hat
    exact hrest f (List.mem_of_getElem? hat)
  obtain ⟨original, hmem, hrenames⟩ := horiginal hposition hd
  obtain ⟨original', hmem', hrenames'⟩ := horiginal hother he
  rw [hrenames.covers_eq] at hdw
  rw [hrenames'.covers_eq] at hew
  have hsame : original = original' := h.base.owner_unique hmem hmem' hdw hew
  rw [← hsame] at hrenames'
  exact hrenames.trans hrenames'.symm

end Catalogs

namespace Table

open Catalogs

section LastClaims

variable {table : Table} {catalogs : Catalogs} {options : OverlaySet} (hvalid : catalogs.Valid)
  (hlast : ∀ w, IsLastClaim (catalogs.applied options) w (table.index w) (table.decode w))

include hvalid hlast

/-- **All or nothing.**  A definition that owns a word owns all that it claims. -/
theorem index_eq_iff_covers {w : Word} (hw : table.index w ≠ 0) (v : Word) :
    table.index v = table.index w ↔ (table.decode w).covers v.val = true := by
  constructor
  · intro hindex
    have hat := (hlast v).at_position
    rw [hindex, (hlast w).at_position] at hat
    rw [Option.some.inj hat]
    exact (hlast v).covers
  · intro hcovers
    have hle := (hlast v).not_lt (hlast w).at_position hcovers
    have hrenames := hvalid.renames_of_covers_both (hlast v).at_position (hlast w).at_position
      (by omega) hw (hlast v).covers hcovers
    -- The owner of `v` claims `w` too, so it does not stand behind the owner of `w`.
    have hclaims : (table.decode v).covers w.val = true := by
      rw [hrenames.covers_eq]
      exact (hlast w).covers
    have hge := (hlast w).not_lt (hlast v).at_position hclaims
    omega

/-- A word has the index 0 exactly if no entry of the base claims it. -/
theorem index_eq_zero_iff (w : Word) :
    table.index w = 0 ↔ ∀ b ∈ catalogs.base, b.covers w.val = false := by
  constructor
  · intro hzero b hb
    cases hcovers : b.covers w.val with
    | false => rfl
    | true => exact absurd hzero (hvalid.renames_owner_of_isLastClaim (hlast w) hb hcovers).1
  · intro hnone
    exact (hvalid.eq_catchAll_of_isLastClaim (hlast w) hnone).1

theorem index_ne_zero_iff (w : Word) :
    table.index w ≠ 0 ↔ ∃ b ∈ catalogs.base, b.covers w.val = true := by
  rw [Ne, index_eq_zero_iff hvalid hlast]
  simp

/-- The range of a definition that owns a word is a run. -/
theorem range_mem_runs {w : Word} (hw : table.index w ≠ 0) :
    ⟨(table.decode w).encoding.val, (table.decode w).encoding.val + (table.decode w).freeBits,
      table.index w⟩ ∈ table.runs := by
  have hclean := hvalid.clean_of_mem_applied (List.mem_of_getElem? (hlast w).at_position)
  have hend := Definition.stop_le hclean
  have hrange : ∀ v : Word, table.index v = table.index w ↔
      (table.decode w).first ≤ v.val ∧ v.val < (table.decode w).stop := by
    intro v
    rw [index_eq_iff_covers hvalid hlast hw, Definition.covers_iff_range hclean]
  unfold Definition.first Definition.stop at hrange
  unfold Definition.stop at hend
  refine mem_runs_iff.mpr ⟨Nat.le_add_right _ _, by omega, ?_, ?_, ?_⟩
  · intro v hv hv'
    exact (hrange v).mpr (by omega)
  · intro v hv hindex
    have hinside := (hrange v).mp hindex
    omega
  · intro v hv hindex
    have hinside := (hrange v).mp hindex
    omega

/-- A run that is not the catch-all's is the range of its definition. -/
theorem range_of_mem_runs {run : Run} (hrun : run ∈ table.runs) (hindex : run.index ≠ 0) :
    ∃ d, table.definitionAt? run.index = some d ∧
      run = ⟨d.encoding.val, d.encoding.val + d.freeBits, run.index⟩ := by
  have hstretch := mem_runs_iff.mp hrun
  have hle := hstretch.first_le_last
  let w : Word := ⟨run.first, Nat.lt_of_le_of_lt hle hstretch.last_lt⟩
  have hw : table.index w = run.index := hstretch.inside w (Nat.le_refl _) hle
  have hne : table.index w ≠ 0 := by rwa [hw]
  have hrange := range_mem_runs hvalid hlast hne
  have hclean := hvalid.clean_of_mem_applied (List.mem_of_getElem? (hlast w).at_position)
  have hclaimed := (Definition.covers_iff_range hclean w).mp (hlast w).covers
  unfold Definition.first Definition.stop at hclaimed
  have hsame := eq_of_holds hrun hrange ⟨Nat.le_refl _, hle⟩
    ⟨hclaimed.1, Nat.le_of_lt_succ hclaimed.2⟩
  rw [hw] at hsame
  exact ⟨table.decode w, by rw [← hw, definitionAt?_index], hsame⟩

/-- A definition owns no word exactly when a later one has the same encoding and mask. -/
theorem no_word_iff {before behind : List Definition} {d : Definition}
    (happlied : catalogs.applied options = before ++ d :: behind) (hbefore : before ≠ []) :
    (∀ w, table.index w ≠ before.length) ↔ ∃ e ∈ behind, e.sameSlot d = true := by
  have hat : (catalogs.applied options)[before.length]? = some d := by
    rw [happlied, List.getElem?_append_right (Nat.le_refl _), Nat.sub_self]
    rfl
  have hposition : before.length ≠ 0 := fun hzero => hbefore (List.eq_nil_of_length_eq_zero hzero)
  constructor
  · intro hnone
    have hclean := hvalid.clean_of_mem_applied (List.mem_of_getElem? hat)
    have hcovers := Definition.covers_encoding hclean
    have hle := (hlast d.encoding).not_lt hat hcovers
    have hne := hnone d.encoding
    have howner := (hlast d.encoding).at_position
    have hrenames := hvalid.renames_of_covers_both howner hat (by omega) hposition
      (hlast d.encoding).covers hcovers
    -- The owner of the encoding stands behind the definition.
    obtain ⟨gap, hgap⟩ : ∃ gap, table.index d.encoding = before.length + (gap + 1) :=
      ⟨table.index d.encoding - before.length - 1, by omega⟩
    rw [happlied, hgap, List.getElem?_append_right (Nat.le_add_right _ _),
      Nat.add_sub_cancel_left, List.getElem?_cons_succ] at howner
    exact ⟨_, List.mem_of_getElem? howner, (Overlay.renames_iff.mp hrenames).1⟩
  · intro hrenamed w hw
    obtain ⟨e, he, hslot⟩ := hrenamed
    have hd := (hlast w).at_position
    rw [hw, hat] at hd
    have hcovers := (hlast w).covers
    rw [← Option.some.inj hd, ← Definition.covers_of_sameSlot hslot] at hcovers
    have hbehind : (catalogs.applied options).drop (table.index w + 1) = behind := by
      rw [hw, happlied, List.drop_append, Nat.add_sub_cancel_left, List.drop_eq_nil_of_le (by omega)]
      rfl
    have hnone := (hlast w).none_later e (by rw [hbehind]; exact he)
    rw [hcovers] at hnone
    cases hnone

/-- Only the entries of later layers can take over the range of a definition. -/
theorem no_word_iff_of_layers {layers : List Catalog}
    (happlied : catalogs.applied options = layers.flatten)
    (hwell : ∀ catalog ∈ layers, catalog.WellFormed) {level place : Nat} {catalog : Catalog}
    {d : Definition} (hbelow : (layers.take level).flatten ≠ [])
    (hcatalog : layers[level]? = some catalog) (hd : catalog[place]? = some d) :
    (∀ w, table.index w ≠ (layers.take level).flatten.length + place) ↔
      ∃ later ∈ layers.drop (level + 1), ∃ e ∈ later, e.sameSlot d = true := by
  obtain ⟨hplace, -⟩ := List.getElem?_eq_some_iff.mp hd
  have hlength : ((layers.take level).flatten ++ catalog.take place).length =
      (layers.take level).flatten.length + place := by
    rw [List.length_append, List.length_take_of_le (Nat.le_of_lt hplace)]
  rw [flatten_eq_append_cons hcatalog hd] at happlied
  rw [← hlength, no_word_iff hvalid hlast happlied (by simp [hbelow])]
  constructor
  · intro hrenamed
    obtain ⟨e, he, hslot⟩ := hrenamed
    rcases List.mem_append.mp he with hsame | hlater
    · have hcatalogWell := hwell catalog (List.mem_of_getElem? hcatalog)
      exact absurd hslot (hcatalogWell.not_sameSlot hd hsame)
    · obtain ⟨later, hlater, hmem⟩ := List.mem_flatten.mp hlater
      exact ⟨later, hlater, e, hmem, hslot⟩
  · intro hrenamed
    obtain ⟨later, hlater, e, hmem, hslot⟩ := hrenamed
    exact ⟨e, List.mem_append_right _ (List.mem_flatten.mpr ⟨later, hlater, hmem⟩), hslot⟩

/-- No definition is left with more than one run. -/
theorem countP_runs_le_one {position : Nat} (hposition : position ≠ 0) :
    table.runs.countP (fun run => run.index == position) ≤ 1 := by
  rw [List.countP_eq_length_filter]
  cases hfilter : table.runs.filter fun run => run.index == position with
  | nil => exact Nat.zero_le 1
  | cons run rest =>
      have hkept : run ∈ table.runs.filter fun run => run.index == position := by
        rw [hfilter]
        exact List.mem_cons_self
      obtain ⟨hrun, hindex⟩ := List.mem_filter.mp hkept
      have hone : table.runs.filter (fun run => run.index == position) = [run] := by
        refine filter_eq_singleton pairwise_runs ?_ hrun hindex
        intro b hb c hc hbindex hcindex hlt
        rw [beq_iff_eq] at hbindex hcindex
        obtain ⟨d, hd, hbrange⟩ := range_of_mem_runs hvalid hlast hb (by rwa [hbindex])
        obtain ⟨e, he, hcrange⟩ := range_of_mem_runs hvalid hlast hc (by rwa [hcindex])
        -- Both runs are the range of the definition at this position.
        rw [hbindex] at hd
        rw [hcindex, hd] at he
        have hsame : b.first = c.first := by
          rw [hbrange, hcrange, Option.some.inj he]
        have := (mem_runs_iff.mp hb).first_le_last
        omega
      rw [← hfilter, hone]
      exact Nat.le_refl 1

/-- The runs of the catch-all are the gaps of the base. -/
theorem mem_runs_zero_iff {first last : Nat} :
    ⟨first, last, 0⟩ ∈ table.runs ↔ catalogs.base.IsGap first last := by
  rw [mem_runs_iff]
  constructor
  · intro h
    exact ⟨h.first_le_last, h.last_lt,
      fun w hw hw' => (index_eq_zero_iff hvalid hlast w).mp (h.inside w hw hw'),
      fun w hw => (index_ne_zero_iff hvalid hlast w).mp (h.before w hw),
      fun w hw => (index_ne_zero_iff hvalid hlast w).mp (h.behind w hw)⟩
  · intro h
    exact ⟨h.first_le_last, h.last_lt,
      fun w hw hw' => (index_eq_zero_iff hvalid hlast w).mpr (h.unclaimed w hw hw'),
      fun w hw => (index_ne_zero_iff hvalid hlast w).mpr (h.before w hw),
      fun w hw => (index_ne_zero_iff hvalid hlast w).mpr (h.behind w hw)⟩

end LastClaims

/-- The runs of a table as its layers have it: whole ranges of definitions, and what the base leaves
to the catch-all. -/
structure WholeRanges (table : Table) (base : Catalog) (layers : List Catalog) : Prop where
  /-- The definitions are those of the layers. -/
  definitions : table.definitions.toList = layers.flatten
  /-- A run that is not the catch-all's goes from the encoding of its definition through the free
  bits. -/
  whole : ∀ run ∈ table.runs, run.index ≠ 0 →
    ∃ d, table.definitionAt? run.index = some d ∧ run.first = d.encoding.val ∧
      run.last = d.encoding.val + d.freeBits
  /-- A definition other than the catch-all has at most one run. -/
  once : ∀ position, position ≠ 0 → table.runs.countP (fun run => run.index == position) ≤ 1
  /-- A definition above the catch-all has no run exactly when a later layer holds one with the same
  encoding and mask. -/
  renamed : ∀ (level place : Nat) (catalog : Catalog) (d : Definition), level ≠ 0 →
    layers[level]? = some catalog → catalog[place]? = some d →
    ((∀ run ∈ table.runs, run.index ≠ (layers.take level).flatten.length + place) ↔
      ∃ later ∈ layers.drop (level + 1), ∃ e ∈ later, e.sameSlot d = true)
  /-- The catch-all has the maximal stretches of words that the base does not claim. -/
  gaps : ∀ first last, ⟨first, last, 0⟩ ∈ table.runs ↔ base.IsGap first last

/-- **Each definition owns its whole range or nothing.** -/
theorem runs_are_whole_ranges (catchAll base : Catalog)
    (overlays : Option (List (OverlaySet × Catalog))) (options : OverlaySet)
    (haccepted : (ofParts catchAll base overlays).validate = .ok ())
    (hfits : (layers catchAll base overlays options).flatten.length ≤ 65536) :
    ∃ table, build (ofParts catchAll base overlays) options = .ok table ∧
      table.WholeRanges base (layers catchAll base overlays options) := by
  have hvalid := validate_eq_ok_iff_valid.mp haccepted
  have happlied := applied_ofParts catchAll base overlays options
  rw [← happlied] at hfits
  obtain ⟨table, hbuild, hdefinitions, hlast⟩ := exists_table haccepted hfits
  refine ⟨table, hbuild, hdefinitions.trans happlied, ?_, ?_, ?_, ?_⟩
  · intro run hrun hindex
    obtain ⟨d, hd, hrange⟩ := range_of_mem_runs hvalid hlast hrun hindex
    exact ⟨d, hd, congrArg Run.first hrange, congrArg Run.last hrange⟩
  · intro position hposition
    exact countP_runs_le_one hvalid hlast hposition
  · intro level place catalog d hlevel hcatalog hd
    obtain ⟨c, hc, -, -⟩ := hvalid.catchAll_only
    have hbelow : ((layers catchAll base overlays options).take level).flatten ≠ [] := by
      obtain ⟨below, rfl⟩ := Nat.exists_eq_succ_of_ne_zero hlevel
      have hcatch : catchAll = [c] := hc
      rw [layers, List.take_succ_cons, hcatch]
      simp
    rw [no_run_iff]
    exact no_word_iff_of_layers hvalid hlast happlied
      (fun catalog hmem => hvalid.wellFormed_of_mem_layers hmem) hbelow hcatalog hd
  · intro first last
    exact mem_runs_zero_iff hvalid hlast

/-- With all overlays on, the base entry that two of them rename has no run, and the later of its
new names has its range. -/
theorem runs_pairCatalogs :
    pairCatalogs.validate = .ok () ∧
      (layers Catalog.catchAll instructionPair (some pairRenamed) .full).flatten.length ≤ 65536 ∧
      ∃ table, build pairCatalogs .full = .ok table ∧
        (∀ run ∈ table.runs, run.index ≠ 1) ∧ (∀ run ∈ table.runs, run.index ≠ 3) ∧
        ∃ run ∈ table.runs, run.index = 4 ∧ run.first = 0x1200 ∧ run.last = 0x12FF := by
  have hfits :
      (layers Catalog.catchAll instructionPair (some pairRenamed) .full).flatten.length ≤ 65536 := by
    decide
  obtain ⟨table, hbuild, hwhole⟩ :=
    runs_are_whole_ranges Catalog.catchAll instructionPair (some pairRenamed) .full
      validate_pairCatalogs hfits
  have hbase := hwhole.renamed 1 0 _ _ (by decide) rfl rfl
  have hlow := hwhole.renamed 2 0 _ _ (by decide) rfl rfl
  have hhigh := hwhole.renamed 5 0 _ _ (by decide) rfl rfl
  refine ⟨validate_pairCatalogs, hfits, table, hbuild, hbase.mpr (by decide),
    hlow.mpr (by decide), ?_⟩
  have howns : ¬ ∀ run ∈ table.runs, run.index ≠ 4 := (not_congr hhigh).mpr (by decide)
  obtain ⟨run, hrun, hindex⟩ : ∃ run ∈ table.runs, run.index = 4 := by simpa using howns
  obtain ⟨d, hd, hfirst, hlast⟩ := hwhole.whole run hrun (by rw [hindex]; decide)
  rw [hindex, definitionAt?, ← Array.getElem?_toList, hwhole.definitions] at hd
  cases hd
  exact ⟨run, hrun, hindex, hfirst, hlast⟩

end Table

end WordAtlas
