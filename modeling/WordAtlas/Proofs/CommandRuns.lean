import WordAtlas.CommandLine
import WordAtlas.Proofs.JsonTexts
import WordAtlas.Proofs.LookedUpWords
import WordAtlas.Proofs.NamedOverlays
import WordAtlas.Proofs.ShippedCatalogs

/-!
# Runs of the command line

A run of accepted arguments ends in one of two ways.  An item of the text of overlays that is not
accepted ends it with exit code 2, and then nothing is written but the log (`Effect.Fails`).  In any
other case the shipped catalogs give a table, whatever the overlays are (`exists_build_shipped`),
and one text is written to the one place for it (`Effect.Pays`).  That text is read back as what the
table tells: its listing, or an entry for each of the words in turn (`readsBack_payload`).

The main statement is `run_all_or_nothing`.
-/

namespace WordAtlas

namespace Json

/-- A text is read back as a value, the order of fields aside. -/
def ReadsBack (text : String) (v : Json Int) : Prop :=
  ∃ read : Json Int, ofText? text = some (read.map .integer) ∧ Rearranged v read

/-- The text of a value is read back as the value, in either style. -/
theorem readsBack_text (v : Json Int) (pretty : Bool) : ReadsBack (v.text pretty) v :=
  ⟨v.sortFields, ofText?_text v pretty, rearranged_sortFields v⟩

end Json

namespace CommandLine

/-- The file that a request names; an empty name is none. -/
def Request.destination? (request : Request) : Option String :=
  request.output.filter (· ≠ "")

/-- The text of the overlays in force: that of the arguments, or else that of the environment. -/
def optionsText? (environment : String → Option String) (request : Request) : Option String :=
  request.options.or (environment "FR80_DECODE_OPTIONS")

/-- Every item of a text of overlays is accepted. -/
def AllAccepted (image : Char → List Char) (text : String) : Prop :=
  ∀ item ∈ text.toList.splitOn ',', OverlaySet.Accepted image item

/-- A run that succeeds writes one text and nothing else: to the file that is named, or else to the
standard output. -/
structure Effect.Pays (effect : Effect) (destination : Option String) (text : String) : Prop where
  exitCode : effect.exitCode = 0
  file : effect.file = destination.map fun path => (path, text)
  stdout : effect.stdout = if destination.isSome then "" else text

/-- A run that fails writes nothing. -/
structure Effect.Fails (effect : Effect) : Prop where
  exitCode : effect.exitCode = 2
  file : effect.file = none
  stdout : effect.stdout = ""

/-- An entry agrees with what the table decodes a word to. -/
structure Agrees (table : Table) (w : Word) (entry : Entry) : Prop where
  word : entry.word = w
  index : entry.record.index = table.index w
  definition : entry.record.definition = table.decode w
  fields : entry.fields = (table.decode w).format.split w
  tells : entry.Tells table w

/-- The entry of a word agrees with what the table decodes the word to. -/
theorem agrees_entry (table : Table) (w : Word) : Agrees table w (table.entry w) :=
  ⟨rfl, rfl, rfl, rfl, table.entry_tells w⟩

/-- The shipped catalogs give a table for any overlays. -/
theorem exists_build_shipped (options : OverlaySet) :
    ∃ table, Table.build .shipped options = .ok table := by
  obtain ⟨table, hbuild, -⟩ :=
    Table.exists_table Catalogs.validate_shipped (Catalogs.length_applied_shipped options)
  exact ⟨table, hbuild⟩

/-- A text that is delivered is written to the one place for it. -/
theorem pays_deliver (request : Request) (log text : String) :
    (deliver request log text).Pays request.destination? text := by
  unfold deliver Request.destination?
  cases request.output with
  | none => exact ⟨rfl, rfl, rfl⟩
  | some path =>
      by_cases hpath : path = ""
      · simp only [hpath]
        exact ⟨rfl, rfl, rfl⟩
      · simp only [hpath, if_false, Option.filter, ne_eq, not_false_eq_true, decide_true]
        exact ⟨rfl, rfl, rfl⟩

variable {catalogs : Catalogs} {environment : String → Option String} {request : Request}
  {image : Char → List Char}

/-- Overlays given in the arguments are those in force. -/
theorem overlaysFor_of_options {text : String} (h : request.options = some text) :
    overlaysFor environment request = OverlaySet.ofText text := by
  rw [overlaysFor, h]

/-- Without them the environment chooses. -/
theorem overlaysFor_of_none (h : request.options = none) :
    overlaysFor environment request = OverlaySet.ofEnvironment environment := by
  rw [overlaysFor, h]

/-- The overlays are refused exactly when an item of the text in force is not accepted. -/
theorem exists_overlaysFor_iff (himage : Text.IsUppering image) :
    (∃ options, overlaysFor environment request = .ok options) ↔
      ∀ text ∈ optionsText? environment request, AllAccepted image text := by
  have htext : ∀ text,
      (∃ options, OverlaySet.ofText text = .ok options) ↔ AllAccepted image text :=
    fun text => by
      rw [OverlaySet.ofText, Text.pieces_eq_splitOn]
      exact OverlaySet.exists_ofItems_iff himage
  unfold overlaysFor optionsText? OverlaySet.ofEnvironment OverlaySet.listVariable
  cases request.options with
  | some text => simp [htext]
  | none =>
      cases environment "FR80_DECODE_OPTIONS" with
      | some text => simp [htext]
      | none => simp

/-- If the overlays are refused, nothing is written. -/
theorem fails_fulfil {e : OverlaySet.Unknown} (h : overlaysFor environment request = .error e) :
    (fulfil catalogs environment request).Fails := by
  rw [fulfil, h]
  exact ⟨rfl, rfl, rfl⟩

/-- If there are overlays, a table for them and all the words, the payload is written. -/
theorem fulfil_of_build {options : OverlaySet} {table : Table}
    (hoptions : overlaysFor environment request = .ok options)
    (hbuild : Table.build catalogs options = .ok table) (hwords : request.wordMissing = false) :
    (fulfil catalogs environment request).Pays request.destination?
      ((payload table request.words).text request.pretty) := by
  have hresult : (Table.course catalogs options).result = .ok table := hbuild
  rw [fulfil, hoptions]
  simp only [hresult, hwords, Bool.false_eq_true, if_false]
  exact pays_deliver _ _ _

/-- A run of accepted arguments that do not ask for help carries out their request. -/
theorem run_of_request {arguments : List String}
    (hrequest : Request.ofArguments arguments = .ok request) (hhelp : request.help = false)
    (environment : String → Option String) :
    run environment arguments = fulfil .shipped environment request := by
  rw [run, hrequest]
  simp only [hhelp, Bool.false_eq_true, if_false]

/-- If the overlays are given, the request is carried out alike in every environment. -/
theorem fulfil_of_options {text : String} (h : request.options = some text)
    (environment other : String → Option String) :
    fulfil catalogs other request = fulfil catalogs environment request := by
  rw [fulfil, fulfil, overlaysFor_of_options h, overlaysFor_of_options h]

/-- The entries of some words agree with the table, one by one. -/
theorem forall₂_agrees (table : Table) (words : List Word) :
    List.Forall₂ (Agrees table) words (words.map table.entry) := by
  rw [List.forall₂_map_right_iff, List.forall₂_same]
  exact fun w _ => agrees_entry table w

/-- The text of a payload is read back as the listing, or as an entry for each word. -/
theorem readsBack_payload (table : Table) (words : List Word) (pretty : Bool) :
    (words = [] → Json.ReadsBack ((payload table words).text pretty) table.listing.toJson) ∧
    (words ≠ [] → ∃ entries, List.Forall₂ (Agrees table) words entries ∧
      Json.ReadsBack ((payload table words).text pretty) (.array (entries.map Entry.toJson))) := by
  cases words with
  | nil => exact ⟨fun _ => Json.readsBack_text _ pretty, fun h => absurd rfl h⟩
  | cons w rest =>
      refine ⟨nofun, fun _ => ⟨_, forall₂_agrees table (w :: rest), ?_⟩⟩
      have hread := Json.readsBack_text (payload table (w :: rest)) pretty
      rw [List.map_map]
      exact hread

/-- **All or nothing.**  Overlays given in the arguments are those in force, and then nothing that
the run does depends on the environment; otherwise the environment chooses them.  If an item of the
text in force is not accepted, under whatever mapping to upper case, the run fails and writes
nothing. Otherwise it succeeds and writes one text.  The text is read back as the listing of the
table for the overlays in force, written field by field, which is faithful to the table; or, if
words are given, as a list of entries, one for each word in order, that agree with what the table
decodes the word to. -/
theorem run_all_or_nothing {image : Char → List Char} (himage : Text.IsUppering image)
    (environment : String → Option String) {arguments : List String} {request : Request}
    (hrequest : Request.ofArguments arguments = .ok request) (hhelp : request.help = false)
    (hwords : request.wordMissing = false) :
    (∀ text, request.options = some text →
      overlaysFor environment request = OverlaySet.ofText text ∧
      ∀ other, run other arguments = run environment arguments) ∧
    (request.options = none →
      overlaysFor environment request = OverlaySet.ofEnvironment environment) ∧
    ((∃ text ∈ optionsText? environment request, ¬ AllAccepted image text) →
      (run environment arguments).Fails) ∧
    ((∀ text ∈ optionsText? environment request, AllAccepted image text) →
      ∃ options table text, overlaysFor environment request = .ok options ∧
        Table.build .shipped options = .ok table ∧ table.options = options ∧
        (run environment arguments).Pays request.destination? text ∧
        (request.words = [] → Json.ReadsBack text table.listing.toJson ∧
          table.listing.WrittenAs table.listing.toJson ∧ table.listing.Faithful table) ∧
        (request.words ≠ [] → ∃ entries, List.Forall₂ (Agrees table) request.words entries ∧
          Json.ReadsBack text (.array (entries.map Entry.toJson)))) := by
  have hrun := run_of_request hrequest hhelp
  refine ⟨fun text htext => ⟨overlaysFor_of_options htext, fun other => ?_⟩,
    overlaysFor_of_none, ?_, ?_⟩
  · rw [hrun, hrun]
    exact fulfil_of_options htext environment other
  · rintro ⟨text, htext, hrefused⟩
    rw [hrun]
    -- only the overlays can be refused, and they are, so neither table nor payload matters here
    cases hoptions : overlaysFor environment request with
    | ok options =>
        exact absurd ((exists_overlaysFor_iff himage).mp ⟨options, hoptions⟩ text htext) hrefused
    | error e => exact fails_fulfil hoptions
  · intro haccepted
    obtain ⟨options, hoptions⟩ := (exists_overlaysFor_iff himage).mpr haccepted
    obtain ⟨table, hbuild⟩ := exists_build_shipped options
    obtain ⟨hlisting, hentries⟩ := readsBack_payload table request.words request.pretty
    rw [hrun]
    exact ⟨options, table, _, hoptions, hbuild, Table.options_of_build hbuild,
      fulfil_of_build hoptions hbuild hwords,
      fun hnone => ⟨hlisting hnone, table.listing.writtenAs_toJson, table.faithful_listing⟩,
      hentries⟩

/-- A word that is asked for twice is told about twice, in the file that is named.  The overlay is
spelled with a long s. -/
theorem run_twice_the_word : ∃ table text entries,
    Table.build .shipped (.single .stack) = .ok table ∧
    (run (fun _ => none) ["--options", "\u017ftack", "-w", "0x9720", "-w0x9720", "-o", "atlas"]).Pays
      (some "atlas") text ∧
    List.Forall₂ (Agrees table) [0x9720, 0x9720] entries ∧
    Json.ReadsBack text (.array (entries.map Entry.toJson)) := by
  have hrequest : Request.ofArguments
      ["--options", "\u017ftack", "-w", "0x9720", "-w0x9720", "-o", "atlas"] = .ok
        { options := some "\u017ftack", words := [0x9720, 0x9720], output := some "atlas" } := by
    decide +kernel
  have hstack : OverlaySet.Accepted Text.upperChar "\u017ftack".toList :=
    ⟨"STACK", [.stack], ⟨"\u017ftack".toList, Text.isCore_iff.mpr (by decide), by decide⟩,
      by decide⟩
  have haccepted : AllAccepted Text.upperChar "\u017ftack" := by
    have hitems : "\u017ftack".toList.splitOn ',' = ["\u017ftack".toList] := by decide
    rw [AllAccepted, hitems]
    exact List.forall_mem_singleton.mpr hstack
  obtain ⟨-, -, -, hruns⟩ := run_all_or_nothing Text.isUppering_upperChar (fun _ => none) hrequest
    rfl rfl
  obtain ⟨options, table, text, hoptions, hbuild, -, hpays, -, hread⟩ :=
    hruns (by rintro text ⟨⟩; exact haccepted)
  obtain ⟨entries, hentries, hback⟩ := hread (by decide)
  have hsingle : OverlaySet.ofText "\u017ftack" = .ok (.single .stack) := by decide
  obtain rfl : OverlaySet.single .stack = options := Except.ok.inj (hsingle.symm.trans hoptions)
  exact ⟨table, text, entries, hbuild, hpays, hentries, hback⟩

end CommandLine

end WordAtlas
