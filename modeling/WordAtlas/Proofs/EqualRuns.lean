import Mathlib.Data.List.Sort
import WordAtlas.Proofs.WholeRanges

/-!
# Equal runs

Runs are cut where positions change, but tables are compared by the values of definitions.  Slots
that were given directly can hold two positions of equal definitions next to each other, and then
the runs tell more than the comparison does.  A table that was built from accepted catalogs *tells
its definitions apart*: words with equal definitions have the same position, because a definition
that owns a word owns all that it claims (`tellsApart_of_lastClaims`).

In such a table the runs are the maximal stretches of words with equal definitions
(`mem_shownRuns_iff_isMaximal`), so they depend on what the words decode to and on nothing else.  In
the other direction any table can be read off its runs (`decode_eq_of_shownRuns_eq`).  The main
statement is `decodesLike_iff_shownRuns_eq`.
-/

namespace WordAtlas

/-- A stretch of words that decode to one definition, compared by value, and that can be made longer
on neither side. -/
structure ShownRun.IsMaximal (decode : Word → Definition) (run : ShownRun) : Prop where
  first_le_last : run.first ≤ run.last
  last_lt : run.last < 65536
  inside : ∀ w : Word, run.first ≤ w.val → w.val ≤ run.last → decode w = run.definition
  before : ∀ w : Word, w.val + 1 = run.first → decode w ≠ run.definition
  behind : ∀ w : Word, w.val = run.last + 1 → decode w ≠ run.definition

/-- Runs that lie one behind the other. -/
def ShownRun.Precedes (run later : ShownRun) : Prop :=
  run.first < later.first

instance : Std.Irrefl ShownRun.Precedes :=
  ⟨fun run => Nat.lt_irrefl run.first⟩

instance : Std.Antisymm ShownRun.Precedes :=
  ⟨fun _ _ h h' => absurd h' (Nat.lt_asymm h)⟩

namespace Table

variable {table table' : Table}

/-- A shown run is a run with the definition of its first word. -/
theorem mem_shownRuns_iff {run : ShownRun} :
    run ∈ table.shownRuns ↔ ∃ w : Word, run.first = w.val ∧ run.definition = table.decode w ∧
      table.IsStretch run.first run.last (table.index w) := by
  have hword : ∀ w : Word, Fin.ofNat 65536 w.val = w := fun w => Fin.ext (Nat.mod_eq_of_lt w.isLt)
  rw [shownRuns, List.mem_map]
  constructor
  · intro h
    obtain ⟨held, hheld, rfl⟩ := h
    have hstretch := mem_runs_iff.mp hheld
    have hfirst : held.first < 65536 :=
      Nat.lt_of_le_of_lt hstretch.first_le_last hstretch.last_lt
    let w : Word := ⟨held.first, hfirst⟩
    refine ⟨w, rfl, congrArg table.decode (hword w), ?_⟩
    have hindex : table.index w = held.index :=
      hstretch.inside w (Nat.le_refl _) hstretch.first_le_last
    rw [hindex]
    exact hstretch
  · intro h
    obtain ⟨w, hfirst, hdefinition, hstretch⟩ := h
    refine ⟨⟨run.first, run.last, table.index w⟩, mem_runs_iff.mpr hstretch, ?_⟩
    rw [hfirst, hword w, ← hdefinition, ← hfirst]

/-- The runs are shown in the order of their words. -/
theorem pairwise_shownRuns : table.shownRuns.Pairwise ShownRun.Precedes := by
  refine List.pairwise_map.mpr ?_
  refine pairwise_runs.imp_of_mem fun {run later} hrun _ hlt => ?_
  have hle := (mem_runs_iff.mp hrun).first_le_last
  exact Nat.lt_of_le_of_lt hle hlt

/-- Words with equal definitions have the same position. -/
def TellsApart (table : Table) : Prop :=
  ∀ v w, table.decode v = table.decode w → table.index v = table.index w

theorem TellsApart.index_eq_iff (h : table.TellsApart) (v w : Word) :
    table.index v = table.index w ↔ table.decode v = table.decode w :=
  ⟨decode_congr, h v w⟩

/-- To share a position and to share a definition come to the same, so both cut the words alike. -/
theorem TellsApart.isStretch_iff (h : table.TellsApart) {run : ShownRun} {w : Word}
    (hw : run.definition = table.decode w) :
    table.IsStretch run.first run.last (table.index w) ↔ run.IsMaximal table.decode := by
  have hsame : ∀ v, table.index v = table.index w ↔ table.decode v = run.definition := by
    intro v
    rw [hw]
    exact h.index_eq_iff v w
  constructor
  · intro hstretch
    exact ⟨hstretch.first_le_last, hstretch.last_lt,
      fun v hv hv' => (hsame v).mp (hstretch.inside v hv hv'),
      fun v hv => (not_congr (hsame v)).mp (hstretch.before v hv),
      fun v hv => (not_congr (hsame v)).mp (hstretch.behind v hv)⟩
  · intro hmaximal
    exact ⟨hmaximal.first_le_last, hmaximal.last_lt,
      fun v hv hv' => (hsame v).mpr (hmaximal.inside v hv hv'),
      fun v hv => (not_congr (hsame v)).mpr (hmaximal.before v hv),
      fun v hv => (not_congr (hsame v)).mpr (hmaximal.behind v hv)⟩

/-- In a table that tells its definitions apart, the runs are the maximal stretches of words with
equal definitions. -/
theorem mem_shownRuns_iff_isMaximal (h : table.TellsApart) {run : ShownRun} :
    run ∈ table.shownRuns ↔ run.IsMaximal table.decode := by
  rw [mem_shownRuns_iff]
  constructor
  · intro hrun
    obtain ⟨w, -, hdefinition, hstretch⟩ := hrun
    exact (h.isStretch_iff hdefinition).mp hstretch
  · intro hmaximal
    have hfirst : run.first < 65536 :=
      Nat.lt_of_le_of_lt hmaximal.first_le_last hmaximal.last_lt
    have hdefinition : run.definition = table.decode ⟨run.first, hfirst⟩ :=
      (hmaximal.inside ⟨run.first, hfirst⟩ (Nat.le_refl _) hmaximal.first_le_last).symm
    exact ⟨⟨run.first, hfirst⟩, rfl, hdefinition, (h.isStretch_iff hdefinition).mpr hmaximal⟩

/-- Tables that tell their definitions apart and decode alike have the same runs. -/
theorem shownRuns_eq_of_decode_eq (h : table.TellsApart) (h' : table'.TellsApart)
    (hdecode : ∀ w, table.decode w = table'.decode w) : table.shownRuns = table'.shownRuns := by
  have hfun : table.decode = table'.decode := funext hdecode
  refine List.Pairwise.eq_of_mem_iff pairwise_shownRuns pairwise_shownRuns fun run => ?_
  rw [mem_shownRuns_iff_isMaximal h, mem_shownRuns_iff_isMaximal h', hfun]

/-- The run that holds a word is shown with the word's definition. -/
theorem decode_eq_of_mem_shownRuns {run : ShownRun} (hrun : run ∈ table.shownRuns) {w : Word}
    (hfirst : run.first ≤ w.val) (hlast : w.val ≤ run.last) : table.decode w = run.definition := by
  obtain ⟨v, -, hdefinition, hstretch⟩ := mem_shownRuns_iff.mp hrun
  rw [hdefinition]
  exact decode_congr (hstretch.inside w hfirst hlast)

/-- Every word lies in a run that is shown. -/
theorem exists_shownRun (table : Table) (w : Word) :
    ∃ run ∈ table.shownRuns, run.first ≤ w.val ∧ w.val ≤ run.last := by
  obtain ⟨run, -, hrun, hholds, -⟩ := table.exists_filter_runs w
  exact ⟨_, List.mem_map_of_mem hrun, hholds⟩

/-- What a word decodes to can be read off the runs. -/
theorem decode_eq_of_shownRuns_eq (h : table.shownRuns = table'.shownRuns) (w : Word) :
    table.decode w = table'.decode w := by
  obtain ⟨run, hrun, hfirst, hlast⟩ := table.exists_shownRun w
  have hrun' : run ∈ table'.shownRuns := h ▸ hrun
  rw [decode_eq_of_mem_shownRuns hrun hfirst hlast, decode_eq_of_mem_shownRuns hrun' hfirst hlast]

/-- Words that decode to equal definitions belong to the same one.  If either is not the
catch-all's, its definition claims both words and so owns both; and the catch-all has only one
position. -/
theorem tellsApart_of_lastClaims {catalogs : Catalogs} {options : OverlaySet}
    (hvalid : catalogs.Valid)
    (hlast : ∀ w, IsLastClaim (catalogs.applied options) w (table.index w) (table.decode w)) :
    table.TellsApart := by
  have howned : ∀ v w, table.index w ≠ 0 → table.decode v = table.decode w →
      table.index v = table.index w := by
    intro v w hw hdecode
    apply (index_eq_iff_covers hvalid hlast hw v).mpr
    rw [← hdecode]
    exact (hlast v).covers
  intro v w hdecode
  by_cases hw : table.index w = 0
  · by_cases hv : table.index v = 0
    · rw [hv, hw]
    · exact (howned w v hv hdecode.symm).symm
  · exact howned v w hw hdecode

/-- A table that was built tells its definitions apart. -/
theorem tellsApart_of_build {catalogs : Catalogs} {options : OverlaySet}
    (h : build catalogs options = .ok table) : table.TellsApart :=
  tellsApart_of_lastClaims (Catalogs.validate_eq_ok_iff_valid.mp (accepted_of_build h))
    (lastClaims_of_build h)

/-- **Equal tables have equal runs.**  Two tables that were built from accepted catalogs, the same
or others, decode every word alike exactly when their runs are the same words with equal
definitions. -/
theorem decodesLike_iff_shownRuns_eq {catalogs other : Catalogs} {options options' : OverlaySet}
    (hbuild : build catalogs options = .ok table) (hbuild' : build other options' = .ok table') :
    table.decodesLike table' = true ↔ table.shownRuns = table'.shownRuns := by
  rw [decodesLike_iff]
  constructor
  · intro hdecode
    exact shownRuns_eq_of_decode_eq (tellsApart_of_build hbuild) (tellsApart_of_build hbuild')
      hdecode
  · intro hruns w
    exact decode_eq_of_shownRuns_eq hruns w

/-- The new names of an instruction show in the runs. -/
theorem shownRuns_pairCatalogs :
    ∃ table table', build pairCatalogs .empty = .ok table ∧ build pairCatalogs .full = .ok table' ∧
      (table.decodesLike table' = true ↔ table.shownRuns = table'.shownRuns) ∧
      table.shownRuns ≠ table'.shownRuns := by
  obtain ⟨table, hbuild, -, hlast⟩ :=
    exists_table validate_pairCatalogs (length_applied_pairCatalogs .empty)
  obtain ⟨table', hbuild', -, hlast'⟩ :=
    exists_table validate_pairCatalogs (length_applied_pairCatalogs .full)
  have hiff := decodesLike_iff_shownRuns_eq hbuild hbuild'
  refine ⟨table, table', hbuild, hbuild', hiff, fun hruns => ?_⟩
  have hsame := decodesLike_iff.mp (hiff.mpr hruns) 0x1234
  rw [((hlast 0x1234).unique lastClaim_pairCatalogs).2,
    ((hlast' 0x1234).unique lastClaim_pairCatalogs_full).2] at hsame
  exact absurd (congrArg Definition.name hsame) (by decide)

end Table

end WordAtlas
