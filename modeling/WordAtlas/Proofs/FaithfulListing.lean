import WordAtlas.Proofs.MaximalRuns
import WordAtlas.Proofs.NamedOverlays
import WordAtlas.Proofs.WrittenListing

/-!
# Listings are faithful

A listing replaces a table: whoever wants to know what a word decodes to looks for the run that
holds the word and for the record with the index of the run.  Both exist and are unique, and the
record is written with the values of the word's definition, each under its own name.

Nor is there more in a listing than needed.  A record stands for each definition that some word
decodes to (`Table.mem_records_iff`), in the order of the positions.  The number of unknown words is
what the lengths of the runs of the catch-all add up to, because the runs stand for the slots one by
one (`Run.count_flatMap_expand`).  What is written holds all of this, field by field
(`Listing.writtenAs_toJson`).  The main statement is `Table.listing_faithful`.
-/

namespace WordAtlas

/-- A record describes a definition under an index: so does what is written for it, which has no
other fields. -/
structure Record.Describes (record : Record) (index : Nat) (d : Definition) : Prop where
  names : record.toJson.HasFields Record.names
  contents : record.toJson.Describes index d

theorem Record.describes (record : Record) :
    record.Describes record.index record.definition where
  names := record.writtenAs_toJson.names
  contents := record.writtenAs_toJson.describes

/-- The number of words of a run. -/
def Run.length (run : Run) : Int :=
  run.last - run.first + 1

/-- The number of words of some runs. -/
def Run.totalLength (runs : List Run) : Int :=
  runs.foldr (fun run total => run.length + total) 0

/-- Among the slots that runs stand for, a position is counted once for each word of its runs. -/
theorem Run.count_flatMap_expand {runs : List Run} (h : ∀ run ∈ runs, run.first ≤ run.last)
    (index : Nat) :
    (((runs.flatMap expand).count index : Nat) : Int) =
      totalLength (runs.filter fun run => run.index == index) := by
  induction runs with
  | nil => rfl
  | cons run rest ih =>
      obtain ⟨hle, hrest⟩ := List.forall_mem_cons.mp h
      rw [List.flatMap_cons, List.count_append, List.filter_cons, expand, List.count_replicate,
        Int.natCast_add, ih hrest]
      by_cases hindex : run.index == index
      · rw [if_pos hindex, if_pos hindex, totalLength, totalLength, List.foldr_cons, length]
        omega
      · rw [if_neg hindex, if_neg hindex]
        omega

/-- A listing that tells all that a table does, and nothing twice. -/
structure Listing.Faithful (listing : Listing) (table : Table) : Prop where
  /-- Exactly one run holds a word, exactly one record has the index of this run, and the record
  describes the word's definition under this index. -/
  one_record : ∀ w : Word, ∃ run record,
    listing.runs.filter (fun run => run.Holds w.val) = [run] ∧
    listing.records.filter (fun record => record.index == run.index) = [record] ∧
    record.Describes run.index (table.decode w)
  /-- The records are in the order of their positions. -/
  increasing : listing.records.Pairwise fun record later => record.index < later.index
  /-- A definition has a record exactly when some word decodes to it. -/
  no_more : ∀ position,
    (∃ record ∈ listing.records, record.index = position) ↔ ∃ w, table.index w = position
  /-- The unknown words are those of the runs with the index 0. -/
  unknown : (listing.unknownWords : Int) =
    Run.totalLength (listing.runs.filter fun run => run.index == 0)
  /-- The runs are those of the table. -/
  runs : listing.runs = table.runs
  /-- The text of the overlays is that of the table's, and it denotes them. -/
  options : listing.options = table.options.text ∧
    OverlaySet.ofText listing.options = .ok table.options
  version : listing.version = 1

namespace Table

variable {table : Table}

/-- A position can be reached exactly if it is that of some word. -/
theorem mem_reachable_iff {position : Nat} :
    position ∈ table.reachable ↔ ∃ w, table.index w = position := by
  rw [← exists_run_iff]
  simp only [reachable, List.mem_filter, List.mem_range, List.any_eq_true, beq_iff_eq]
  constructor
  · exact fun h => h.2
  · intro h
    obtain ⟨w, hw⟩ := exists_run_iff.mp h
    exact ⟨hw ▸ table.slots_lt w, h⟩

/-- A record stands for each word's definition, and for no other one. -/
theorem mem_records_iff {record : Record} :
    record ∈ table.listing.records ↔ ∃ w, record = ⟨table.index w, table.decode w⟩ := by
  have hrecord : ∀ w, table.record? (table.index w) = some ⟨table.index w, table.decode w⟩ :=
    fun w => by rw [record?, definitionAt?_index, Option.map_some]
  simp only [listing, List.mem_filterMap, mem_reachable_iff]
  constructor
  · intro h
    obtain ⟨position, ⟨w, hw⟩, hfound⟩ := h
    rw [← hw, hrecord w] at hfound
    exact ⟨w, (Option.some.inj hfound).symm⟩
  · intro h
    obtain ⟨w, rfl⟩ := h
    exact ⟨table.index w, ⟨w, rfl⟩, hrecord w⟩

theorem index_of_record? {position : Nat} {record : Record}
    (h : table.record? position = some record) : record.index = position := by
  obtain ⟨d, -, rfl⟩ := Option.map_eq_some_iff.mp h
  rfl

/-- The records are in the order of their positions. -/
theorem pairwise_records :
    table.listing.records.Pairwise fun record later => record.index < later.index := by
  refine List.pairwise_filterMap.mpr ?_
  have hpositions : table.reachable.Pairwise (· < ·) := List.pairwise_lt_range.filter _
  refine hpositions.imp fun hlt record hrecord later hlater => ?_
  rw [index_of_record? hrecord, index_of_record? hlater]
  exact hlt

/-- The listing of a table tells all that the table does, and nothing twice. -/
theorem faithful_listing (table : Table) : table.listing.Faithful table where
  one_record := by
    intro w
    obtain ⟨run, hfilter, -, -, hindex⟩ := table.exists_filter_runs w
    let record : Record := ⟨table.index w, table.decode w⟩
    have hmem : record ∈ table.listing.records := mem_records_iff.mpr ⟨w, rfl⟩
    refine ⟨run, record, hfilter, ?_, ?_⟩
    · refine filter_eq_singleton pairwise_records ?_ hmem (beq_iff_eq.mpr hindex.symm)
      intro b _ c _ hb hc hlt
      have hsame : b.index = c.index := (beq_iff_eq.mp hb).trans (beq_iff_eq.mp hc).symm
      omega
    · rw [hindex]
      exact record.describes
  increasing := pairwise_records
  no_more := by
    intro position
    constructor
    · intro h
      obtain ⟨record, hrecord, hindex⟩ := h
      obtain ⟨w, rfl⟩ := mem_records_iff.mp hrecord
      exact ⟨w, hindex⟩
    · intro h
      obtain ⟨w, hw⟩ := h
      exact ⟨_, mem_records_iff.mpr ⟨w, rfl⟩, hw⟩
  unknown := by
    have hle : ∀ run ∈ table.runs, run.first ≤ run.last :=
      fun run hrun => (mem_runs_iff.mp hrun).first_le_last
    have hcount := Run.count_flatMap_expand hle 0
    rw [Table.runs, Run.flatMap_expand_ofSlots] at hcount
    exact hcount
  runs := rfl
  options := ⟨rfl, OverlaySet.ofText_text table.options⟩
  version := rfl

/-- **Listings are faithful.**  The listing of a table is faithful to the table, and what is written
is the listing, field by field. -/
theorem listing_faithful (table : Table) :
    table.listing.Faithful table ∧ table.listing.WrittenAs table.listing.toJson :=
  ⟨table.faithful_listing, table.listing.writtenAs_toJson⟩

end Table

end WordAtlas
