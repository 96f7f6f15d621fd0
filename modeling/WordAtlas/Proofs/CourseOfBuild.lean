import WordAtlas.Proofs.UnknownWords

/-!
# The course of a build

The log of a build tells how it went.  If anything is wrong with the catalogs, the log holds every
complaint, in the order of the examination, and nothing else; there is no table, and the failure
tells how many complaints there are and which is the first.  If nothing is wrong and positions do
not run out, the log tells of the layers as they are painted and of the finished table.

Two orders are at work.  The examination takes the overlay catalogs as they are given, those that
are never applied among them; the painting takes the overlays that are on, in an order of their own.
Hence the order in which overlay catalogs are given shows in the log of a refusal only.  The main
statement is `Table.build_tells_all`.
-/

namespace WordAtlas

/-! ## Complaints -/

/-- What is said about a catalog, under its label. -/
def Catalog.complaints (catalog : Catalog) (label : String) : List String :=
  (faults catalog).map fun fault => label ++ ": " ++ fault.message

/-- What is said about an overlay catalog that does not rename the base, under its label. -/
def Overlay.complaints (overlay base : Catalog) (label : String) : List String :=
  (faults base overlay).map fun fault => label ++ ": " ++ fault.message

namespace Catalogs

/-- All that is said about the catalogs, in order. -/
def complaints (catalogs : Catalogs) : List String :=
  (if catalogs.catchAll.length = 1 ∧ ∀ d ∈ catalogs.catchAll, d.mask = 0 then []
    else ["catch-all: expected exactly one definition with mask 0x0000"]) ++
  Catalog.complaints catalogs.catchAll "catch-all" ++
  Catalog.complaints catalogs.base "base" ++
  catalogs.overlays.flatMap fun (key, catalog) =>
    Catalog.complaints catalog key.label ++ Overlay.complaints catalog catalogs.base key.label

/-- A catalog is a catch-all exactly if it has one entry, without mask. -/
theorem isCatchAll_iff_length {catalog : Catalog} :
    isCatchAll catalog = true ↔ catalog.length = 1 ∧ ∀ d ∈ catalog, d.mask = 0 := by
  unfold isCatchAll
  constructor
  · intro hshape
    split at hshape
    · exact ⟨rfl, by simpa using hshape⟩
    · cases hshape
  · intro h
    obtain ⟨hlength, hmask⟩ := h
    obtain ⟨d, rfl⟩ := List.length_eq_one_iff.mp hlength
    exact beq_iff_eq.mpr (hmask d List.mem_cons_self)

/-- Every fault is one complaint. -/
theorem map_message_faults (catalogs : Catalogs) :
    catalogs.faults.map Fault.message = catalogs.complaints := by
  have hshape : (if isCatchAll catalogs.catchAll then [] else [Fault.catchAllShape]).map
      Fault.message =
        if catalogs.catchAll.length = 1 ∧ ∀ d ∈ catalogs.catchAll, d.mask = 0 then []
        else ["catch-all: expected exactly one definition with mask 0x0000"] := by
    simp only [← isCatchAll_iff_length]
    split <;> rfl
  simp only [faults, complaints, List.map_append, hshape, List.map_map, List.map_flatMap]
  rfl

end Catalogs

namespace Table

open Catalogs

variable {catalogs : Catalogs} {options : OverlaySet}

/-! ## The log -/

/-- The log of a build, line by line, each with its level. -/
def log (catalogs : Catalogs) (options : OverlaySet) : List (Level × String) :=
  (buildEvents catalogs options).map fun event => (event.level, event.message)

/-- The line about an overlay that is on and has a catalog of its own. -/
def overlayLine? (catalogs : Catalogs) (options : OverlaySet) (overlay : Overlay) :
    Option (Level × String) :=
  if options.contains overlay then
    (catalogs.overlays.lookup (OverlaySet.single overlay)).map fun catalog =>
      (.debug, s!"Applied {overlay.name} overlay ({catalog.length} definitions)")
  else none

/-- The number of words that a base leaves unclaimed. -/
def leftover (base : Catalog) : Nat :=
  (Finset.univ.filter fun w : Word => ∀ d ∈ base, d.covers w.val = false).card

/-- The words that the base leaves over and those that its entries claim are all the words. -/
theorem leftover_add_sum {base : Catalog} (h : base.WellFormed) :
    leftover base + (base.map fun d => d.freeBits + 1).sum = 65536 := by
  have hwords : (Finset.univ.filter fun w : Word => ∀ d ∈ base, d.covers w.val = false) =
      (Catalog.words base)ᶜ := by
    ext w
    rw [Finset.mem_compl, Catalog.mem_words]
    simp
  rw [leftover, hwords, ← h.card_words, Nat.add_comm, Finset.card_add_card_compl]
  exact Fintype.card_fin 65536

/-- The log of a build that went well. -/
def plainLog (catalogs : Catalogs) (options : OverlaySet) : List (Level × String) :=
  (.debug, s!"Expanded {catalogs.base.length} base definitions") ::
    [.stack, .shift, .dmov, .specials].filterMap (overlayLine? catalogs options) ++
    [(.debug,
      s!"Built decode table for options={options.text} ({leftover catalogs.base} unknown words)")]

/-- Where all overlays find positions, all of them are painted. -/
theorem overlayEvents_of_fits {taken : Nat} {entries : List (Overlay × Catalog)}
    (hfits : taken + (entries.flatMap (·.2)).length ≤ 65536) :
    overlayEvents taken entries =
      entries.map fun (overlay, catalog) => .overlaid overlay catalog.length := by
  induction entries generalizing taken with
  | nil => rfl
  | cons entry rest ih =>
      obtain ⟨overlay, catalog⟩ := entry
      simp only [List.flatMap_cons, List.length_append] at hfits
      have hrest : taken + catalog.length + (rest.flatMap (·.2)).length ≤ 65536 := by omega
      rw [overlayEvents, if_pos (by omega), ih hrest, List.map_cons]

/-- If the definitions in force have room, the painting of the base is told, and then each overlay
with the number of its entries. -/
theorem layerEvents_of_fits (hfits : (catalogs.applied options).length ≤ 65536) :
    layerEvents catalogs options = .painted catalogs.base.length ::
      (catalogs.enabled options).map fun (overlay, catalog) =>
        .overlaid overlay catalog.length := by
  rw [applied, List.length_append, List.length_append] at hfits
  rw [layerEvents, if_pos (by omega), overlayEvents_of_fits hfits]

/-- The overlays that are painted are those with a line in the log. -/
theorem map_enabled (catalogs : Catalogs) (options : OverlaySet) :
    (catalogs.enabled options).map (fun (overlay, catalog) =>
      (Level.debug, s!"Applied {overlay.name} overlay ({catalog.length} definitions)")) =
      [.stack, .shift, .dmov, .specials].filterMap (overlayLine? catalogs options) := by
  rw [enabled, OverlaySet.toList, List.filterMap_filter, List.map_filterMap]
  apply List.filterMap_congr
  intro overlay _
  unfold overlayLine? overlay?
  split
  · rw [Option.map_map]
    rfl
  · rfl

/-- In a table that was built, the unknown words are those that the base leaves. -/
theorem unknownCount_of_build {table : Table} (h : build catalogs options = .ok table) :
    table.unknownCount = leftover catalogs.base := by
  have hvalid := validate_eq_ok_iff_valid.mp (accepted_of_build h)
  have hunknown : ∀ w : Word, table.isUnknown w = true ↔
      ∀ d ∈ catalogs.base, d.covers w.val = false := by
    intro w
    rw [isUnknown, beq_iff_eq]
    exact index_eq_zero_iff hvalid (lastClaims_of_build h) w
  rw [← card_unknownWords]
  exact congrArg Finset.card (Finset.filter_congr fun w _ => hunknown w)

/-- Of refused catalogs the log tells every fault and nothing else. -/
theorem log_of_rejected {rejection : Rejection} (h : catalogs.validate = .error rejection) :
    log catalogs options =
      catalogs.complaints.map fun complaint => (.error, "Rejected catalog: " ++ complaint) := by
  rw [log, buildEvents_eq, build_of_rejected h, eventsOf, ← map_message_faults,
    validate_eq_error_iff.mp h, List.map_map, List.map_map]
  rfl

/-- Of a table that was built the log tells the layers and the unknown words. -/
theorem log_of_build {table : Table} (h : build catalogs options = .ok table) :
    log catalogs options = plainLog catalogs options := by
  rw [log, buildEvents_eq, h]
  simp only [eventsOf, layerEvents_of_fits (fits_of_build h), unknownCount_of_build h,
    List.map_append, List.map_cons, List.map_map, plainLog, ← map_enabled]
  rfl

section Order

variable {entries : List (OverlaySet × Catalog)} (hperm : entries.Perm catalogs.overlays)
  (hkeys : (catalogs.overlays.map Prod.fst).Nodup)

include hperm hkeys

/-- With distinct keys, the order of the overlay catalogs does not decide what is in force. -/
theorem applied_of_perm :
    applied { catalogs with overlays := entries } options = catalogs.applied options := by
  simp only [applied, enabled, overlay?, lookup_eq_of_perm hperm hkeys]

/-- Nor does it show in a log without errors. -/
theorem plainLog_of_perm :
    plainLog { catalogs with overlays := entries } options = plainLog catalogs options := by
  have hline : overlayLine? { catalogs with overlays := entries } options =
      overlayLine? catalogs options := by
    funext overlay
    simp only [overlayLine?, lookup_eq_of_perm hperm hkeys]
  simp only [plainLog, hline]

end Order

/-- **A build tells all.**  If there are complaints, there is no table; the failure counts them and
tells the first, and the log holds all of them as errors and nothing else.  If there are none and
positions do not run out, there is a table; the log, which holds no error, tells the size of the
base, of each overlay in the order of their application, and of what the base leaves, and the order
in which the overlay catalogs are given does not show in it. -/
theorem build_tells_all (catalogs : Catalogs) (options : OverlaySet) :
    (∀ first others, catalogs.complaints = first :: others →
      ∃ rejection, build catalogs options = .error (.rejected rejection) ∧
        rejection.message =
          s!"{others.length + 1} catalog invariant violation(s); first: " ++ first ∧
        log catalogs options =
          (first :: others).map fun complaint => (.error, "Rejected catalog: " ++ complaint)) ∧
    (catalogs.complaints = [] → (catalogs.applied options).length ≤ 65536 →
      (∃ table, build catalogs options = .ok table) ∧
      log catalogs options = plainLog catalogs options ∧
      ∀ entries : List (OverlaySet × Catalog), entries.Perm catalogs.overlays →
        (catalogs.overlays.map Prod.fst).Nodup →
        log { catalogs with overlays := entries } options = log catalogs options) := by
  constructor
  · intro first others hcomplaints
    obtain ⟨rejection, hrejected⟩ : ∃ rejection, catalogs.validate = .error rejection := by
      cases hvalidate : catalogs.validate with
      | error rejection => exact ⟨rejection, rfl⟩
      | ok accepted =>
          rw [← map_message_faults, validate_eq_ok_iff.mp hvalidate] at hcomplaints
          cases hcomplaints
    -- The rejection holds the faults; their messages are the complaints, one for one.
    have hall := congrArg (List.map Fault.message) (validate_eq_error_iff.mp hrejected)
    rw [map_message_faults, hcomplaints, Rejection.all, List.map_cons] at hall
    obtain ⟨hfirst, hothers⟩ := List.cons.inj hall
    refine ⟨rejection, build_of_rejected hrejected, ?_, ?_⟩
    · rw [Rejection.message, hfirst, hothers, List.length_map]
    · rw [log_of_rejected hrejected, hcomplaints]
  · intro hcomplaints hfits
    rw [← map_message_faults, List.map_eq_nil_iff] at hcomplaints
    have haccepted := validate_eq_ok_iff.mpr hcomplaints
    obtain ⟨table, hbuild, -, -⟩ := exists_table haccepted hfits
    refine ⟨⟨table, hbuild⟩, log_of_build hbuild, fun entries hperm hkeys => ?_⟩
    have hvalid := (validate_eq_ok_iff_valid.mp haccepted).of_perm hperm
    have hsame : build { catalogs with overlays := entries } options = .ok table :=
      (build_congr haccepted (validate_eq_ok_iff_valid.mpr hvalid)
        (applied_of_perm hperm hkeys)).trans hbuild
    rw [log_of_build hsame, log_of_build hbuild, plainLog_of_perm hperm hkeys]

/-- The two instructions without a catch-all, and two overlay catalogs that do not keep to them, one
of them under no overlay. -/
def strayCatalogs : Catalogs where
  catchAll := []
  base := instructionPair
  overlays :=
    [(.empty, [Catalog.entry 0x1400 0xFF00 .d 0 0 "GONE" "" ""]),
     (OverlaySet.single .dmov, [Catalog.entry 0x1200 0xFF00 .d 2 0 "LOAD" "u" ""])]

/-- What is said about them. -/
def strayComplaints : List String :=
  ["catch-all: expected exactly one definition with mask 0x0000",
   "<OutputOption: 0>: GONE(0x1400) (mask 0xff00) has no base counterpart",
   "dmov: LOAD(0x1200) changes extra_word_count_x of LOAD(0x1200)"]

/-- A refusal of three complaints, and a table under all overlays, of which two have a catalog. -/
theorem build_tells_pairCatalogs :
    (∃ rejection, build strayCatalogs .full = .error (.rejected rejection) ∧
      rejection.message = "3 catalog invariant violation(s); first: " ++
        "catch-all: expected exactly one definition with mask 0x0000" ∧
      log strayCatalogs .full =
        strayComplaints.map fun complaint => (.error, "Rejected catalog: " ++ complaint)) ∧
    pairCatalogs.complaints = [] ∧ (pairCatalogs.applied .full).length ≤ 65536 ∧
    pairCatalogs.overlays.reverse.Perm pairCatalogs.overlays ∧
    (pairCatalogs.overlays.map Prod.fst).Nodup ∧
    log { pairCatalogs with overlays := pairCatalogs.overlays.reverse } .full =
      [(.debug, "Expanded 2 base definitions"),
       (.debug, "Applied STACK overlay (1 definitions)"),
       (.debug, "Applied SPECIALS overlay (1 definitions)"),
       (.debug, "Built decode table for options=stack,shift,dmov,specials (65264 unknown words)")] := by
  have hstray : strayCatalogs.complaints = strayComplaints := by decide
  have hrefused := (build_tells_all strayCatalogs .full).1 _ _ hstray
  have hnone : pairCatalogs.complaints = [] := by decide
  have hfits := length_applied_pairCatalogs .full
  have hperm := pairCatalogs.overlays.reverse_perm
  have hkeys : (pairCatalogs.overlays.map Prod.fst).Nodup := by decide
  obtain ⟨-, hlog, horder⟩ := (build_tells_all pairCatalogs .full).2 hnone hfits
  have hbase := (validate_eq_ok_iff_valid.mp validate_pairCatalogs).base
  have hleftover : leftover pairCatalogs.base = 65264 := by
    have hsum : (pairCatalogs.base.map fun d => d.freeBits + 1).sum = 272 := by decide
    have hall := leftover_add_sum hbase
    omega
  refine ⟨hrefused, hnone, hfits, hperm, hkeys, ?_⟩
  rw [horder _ hperm hkeys, hlog, plainLog, hleftover]
  rfl

end Table

end WordAtlas
