import WordAtlas.Proofs.BatchDecoding
import WordAtlas.Proofs.FaithfulListing

/-!
# Looked-up words

A word can be asked about in three ways: it can be looked up by itself, it can be decoded in a
batch, and its run can be looked for in the listing of the table.  All three name the same
definition.  What is written about a word that was looked up is the record of the listing, the
word, and the operand fields that the format has, a field that is zero being written like any
other (`Entry.Tells`).

Numbers that are not words end the matter: the first of them is reported, and nothing is told
about those before it.  A list of numbers is a list of words or has such a first number
(`Word.words_or_first_refused`), and both parts of the main statement,
`Table.lookup_tells_as_listing`, go by these two cases.
-/

namespace WordAtlas

/-- Some numbers are words, or there is a first one among them that is none. -/
theorem Word.words_or_first_refused (numbers : List Int) :
    (∃ words : List Word, numbers = words.map fun w => (w.val : Int)) ∨
      ∃ (words : List Word) (z : Int) (after : List Int),
        numbers = words.map (fun w => (w.val : Int)) ++ z :: after ∧ ¬ (0 ≤ z ∧ z < 65536) := by
  induction numbers with
  | nil => exact Or.inl ⟨[], rfl⟩
  | cons z rest ih =>
      by_cases hz : 0 ≤ z ∧ z < 65536
      · obtain ⟨n, rfl⟩ := Int.eq_ofNat_of_zero_le hz.1
        let w : Word := ⟨n, by omega⟩
        rcases ih with ⟨words, rfl⟩ | ⟨words, refused, after, rfl, hrefused⟩
        · exact Or.inl ⟨w :: words, rfl⟩
        · exact Or.inr ⟨w :: words, refused, after, rfl, hrefused⟩
      · exact Or.inr ⟨[], z, rest, rfl, hz⟩

theorem Word.range_of_mem_map_val {words : List Word} {z : Int}
    (h : z ∈ words.map fun w => (w.val : Int)) : 0 ≤ z ∧ z < 65536 := by
  obtain ⟨w, -, rfl⟩ := List.mem_map.mp h
  have := w.isLt
  omega

/-! ## Operand fields as they are written -/

/-- The value of an operand field under its name. -/
def Operands.value? (operands : Operands) : String → Option Int
  | "ri" => operands.ri.map Int.ofNat
  | "rj" => operands.rj.map Int.ofNat
  | "x" => operands.x.map Int.ofNat
  | "offset" => operands.offset
  | _ => none

/-- Fields that are written for the operand fields that there are, each of them once. -/
structure Operands.ShownBy (operands : Operands) (shown : List (String × Json Int)) : Prop where
  nodup : (shown.map Prod.fst).Nodup
  mem_iff : ∀ name value, (name, value) ∈ shown ↔
    ∃ z, operands.value? name = some z ∧ value = .number z

/-- A field stands among the named ones with a value exactly if it has the value. -/
theorem Operands.mem_named_iff {operands : Operands} {name : String} {z : Int} :
    (name, some z) ∈ operands.named ↔ operands.value? name = some z := by
  unfold value? named
  split <;> grind

/-- The written fields are those that have a value. -/
theorem Operands.exists_shownBy (operands : Operands) :
    ∃ shown, operands.toJson = .object shown ∧ operands.ShownBy shown := by
  refine ⟨_, rfl, ?_, ?_⟩
  · have hnames : (operands.named.map Prod.fst).Nodup :=
      (by decide : ["ri", "rj", "x", "offset"].Nodup)
    rw [List.Nodup, List.pairwise_map] at hnames ⊢
    refine List.pairwise_filterMap.mpr (hnames.imp ?_)
    rintro ⟨name, value⟩ ⟨other, value'⟩ hne shown hshown shown' hshown'
    obtain ⟨z, -, rfl⟩ := Option.map_eq_some_iff.mp hshown
    obtain ⟨z', -, rfl⟩ := Option.map_eq_some_iff.mp hshown'
    exact hne
  · intro name value
    simp only [List.mem_filterMap, Prod.exists, Option.map_eq_some_iff, Prod.mk.injEq]
    constructor
    · rintro ⟨name, held, hmem, z, rfl, rfl, rfl⟩
      exact ⟨z, mem_named_iff.mp hmem, rfl⟩
    · rintro ⟨z, hvalue, rfl⟩
      exact ⟨name, some z, mem_named_iff.mpr hvalue, z, rfl, rfl, rfl⟩

/-! ## What is told about a word -/

/-- What is written about a word that was looked up, and where the listing tells the same. -/
structure Entry.Tells (entry : Entry) (table : Table) (w : Word) : Prop where
  /-- The index written is that of the run that holds the word. -/
  run : ∃ run, table.listing.runs.filter (fun run => run.Holds w.val) = [run] ∧
    run.index = entry.record.index ∧ entry.toJson.field? "index" = some (.number run.index)
  /-- The record is the one that the listing has under this index. -/
  listed : entry.record ∈ table.listing.records
  only : ∀ record ∈ table.listing.records, record.index = entry.record.index → record = entry.record
  /-- What is written describes the definition of the word. -/
  describes : entry.toJson.Describes (table.index w) (table.decode w)
  names : entry.toJson.HasFields (Record.names ++ ["word", "fields"])
  /-- Behind the fields of the record come the word and its operands. -/
  written : ∃ shown, ((table.decode w).format.split w).ShownBy shown ∧
    entry.toJson =
      .object (entry.record.fields ++ [("word", .number w.val), ("fields", .object shown)])

namespace Table

variable {table : Table}

/-- The entry of a word tells what the listing tells about it. -/
theorem entry_tells (table : Table) (w : Word) : (table.entry w).Tells table w where
  run := by
    obtain ⟨run, hfilter, -, -, hindex⟩ := table.exists_filter_runs w
    refine ⟨run, hfilter, hindex, ?_⟩
    rw [hindex]
    rfl
  listed := mem_records_iff.mpr ⟨w, rfl⟩
  only := by
    intro record hrecord hindex
    obtain ⟨v, rfl⟩ := mem_records_iff.mp hrecord
    have hsame : table.index v = table.index w := hindex
    rw [hsame, decode_congr hsame]
    rfl
  describes := (table.entry w).record.describes_append _
  names := ⟨_, rfl, .refl _⟩
  written := by
    obtain ⟨shown, hjson, hshown⟩ := ((table.decode w).format.split w).exists_shownBy
    refine ⟨shown, hshown, ?_⟩
    rw [← hjson]
    rfl

/-- Looking up numbers ends at the first one that is no word. -/
theorem lookup_of_refused (words : List Word) {z : Int} (after : List Int)
    (hz : ¬ (0 ≤ z ∧ z < 65536)) :
    table.lookup (words.map (fun w => (w.val : Int)) ++ z :: after) = .error ⟨z⟩ := by
  induction words with
  | nil =>
      rw [List.map_nil, List.nil_append, lookup, Word.ofInt_eq_error_iff.mpr ⟨rfl, hz⟩]
      rfl
  | cons w rest ih =>
      rw [List.map_cons, List.cons_append, lookup, Word.ofInt_val, ih]
      rfl

theorem position_val (w : Word) : Batch.position table (.integer w.val) = table.index w := by
  have hword : 0 ≤ (w.val : Int) ∧ (w.val : Int) < 65536 := by omega
  exact (locates_position hword).eq_index

/-- The positions of words in a batch are those of their definitions. -/
theorem map_position (table : Table) (words : List Word) :
    ((words.map fun w => (w.val : Int)).map .integer).map (Batch.position table) =
      words.map table.index := by
  -- `List.map_map` would leave it to the kernel to open `Batch.position` at an unknown word.
  induction words with
  | nil => rfl
  | cons w rest ih => simp only [List.map_cons, position_val, ih]

/-- A batch of words is answered with their positions. -/
theorem decodeBatch_words (table : Table) (words : List Word) :
    table.decodeBatch (.ofList ((words.map fun w => (w.val : Int)).map .integer)) =
      .ok (.ofList (words.map table.index)) := by
  rw [table.decodeBatch_of_regular (Nested.shape_ofList 63 _) (Nested.leaves_ofList _),
    if_pos fun z hz => Word.range_of_mem_map_val hz, Nested.map_ofList, map_position]

/-- **Looking up tells what the listing tells.**  Numbers are looked up unless one of them is no
word, and then the first such number is reported as it is when decoded.  Otherwise there is an
entry for each number in turn, with the position that the batch of the numbers has there, and it
tells what the listing tells about the word. -/
theorem lookup_tells_as_listing (table : Table) (numbers : List Int) :
    ((∃ e, table.lookup numbers = .error e) ↔ ∃ z ∈ numbers, ¬ (0 ≤ z ∧ z < 65536)) ∧
    (∀ e, table.lookup numbers = .error e → ∃ before z after,
      numbers = before ++ z :: after ∧ (∀ earlier ∈ before, 0 ≤ earlier ∧ earlier < 65536) ∧
      ¬ (0 ≤ z ∧ z < 65536) ∧ table.decodeNumber z = .error e) ∧
    ∀ entries, table.lookup numbers = .ok entries →
      table.decodeBatch (.ofList (numbers.map .integer)) =
        .ok (.ofList (entries.map fun entry => entry.record.index)) ∧
      List.Forall₂ (fun (z : Int) entry => ∃ w : Word, z = w.val ∧ entry.Tells table w)
        numbers entries := by
  rcases Word.words_or_first_refused numbers with ⟨words, rfl⟩ | ⟨words, z, after, rfl, hz⟩
  · have hlookup := table.lookup_words words
    refine ⟨iff_of_false ?_ ?_, ?_, ?_⟩
    · rintro ⟨e, he⟩
      rw [hlookup] at he
      cases he
    · rintro ⟨z, hmem, hz⟩
      exact hz (Word.range_of_mem_map_val hmem)
    · intro e he
      rw [hlookup] at he
      cases he
    · intro entries hentries
      rw [hlookup] at hentries
      cases hentries
      constructor
      · rw [decodeBatch_words, List.map_map]
        rfl
      · rw [List.forall₂_map_left_iff, List.forall₂_map_right_iff, List.forall₂_same]
        exact fun w _ => ⟨w, rfl, table.entry_tells w⟩
  · have hlookup := @lookup_of_refused table words z after hz
    have hdecode : table.decodeNumber z = .error ⟨z⟩ := by
      rw [decodeNumber, Word.ofInt_eq_error_iff.mpr ⟨rfl, hz⟩]
      rfl
    refine ⟨iff_of_true ⟨_, hlookup⟩ ⟨z, by simp, hz⟩, ?_, ?_⟩
    · intro e he
      rw [hlookup] at he
      cases he
      exact ⟨_, z, after, rfl, fun _ hmem => Word.range_of_mem_map_val hmem, hz, hdecode⟩
    · intro entries hentries
      rw [hlookup] at hentries
      cases hentries

end Table

end WordAtlas
