import WordAtlas.Proofs.Renaming
import WordAtlas.Stream.Instruction

/-!
# Instruction boundaries

What a fetch reads depends on the table only through the counts of operand words.  Overlays leave
these counts alone, so two choices of overlays cut a stream into the same instructions.

The comparison is one of readings.  Two readings go *alike* when from every position they ask for
the same addresses, end at the same position, and fail with the same error or give related values.
Readings that go alike can be composed (`Reading.Alike.bind`), also when the first of them fails
half way; so fetching goes alike under both tables (`fetch_alike`), and by induction on the steps a
whole run does (`run_alike`).  The main statement is `choices_fetch_alike`.
-/

namespace WordAtlas

/-- Two attempts that ended alike, their values being related by `R`. -/
structure Attempt.Alike {α β : Type} (R : α → β → Prop) (first : Attempt α) (second : Attempt β) :
    Prop where
  pos : first.pos = second.pos
  asked : first.asked = second.asked
  result : (∃ e, first.result = .error e ∧ second.result = .error e) ∨
    ∃ a b, first.result = .ok a ∧ second.result = .ok b ∧ R a b

namespace Reading

variable {α β γ δ : Type} {R : α → β → Prop} {S : γ → δ → Prop}

/-- Two readings that go alike from every position. -/
def Alike (R : α → β → Prop) (reading : Reading α) (other : Reading β) : Prop :=
  ∀ pos, Attempt.Alike R (reading pos) (other pos)

theorem Alike.refl (reading : Reading α) : Alike Eq reading reading := by
  intro pos
  refine ⟨rfl, rfl, ?_⟩
  cases hresult : (reading pos).result with
  | error e => exact Or.inl ⟨e, rfl, rfl⟩
  | ok a => exact Or.inr ⟨a, a, rfl, rfl, rfl⟩

theorem Alike.pure {a : α} {b : β} (h : R a b) :
    Alike R (Pure.pure a : Reading α) (Pure.pure b : Reading β) :=
  fun _ => ⟨rfl, rfl, Or.inr ⟨a, b, rfl, rfl, h⟩⟩

theorem Alike.fail (e : StreamError) : Alike R (Reading.fail e) (Reading.fail e) :=
  fun _ => ⟨rfl, rfl, Or.inl ⟨e, rfl, rfl⟩⟩

/-- Readings that go alike can be continued alike.  If the first part fails, it does so on both
sides and nothing more is read. -/
theorem Alike.bind {reading : Reading α} {other : Reading β} {next : α → Reading γ}
    {next' : β → Reading δ} (h : Alike R reading other)
    (hnext : ∀ a b, R a b → Alike S (next a) (next' b)) :
    Alike S (reading >>= next) (other >>= next') := by
  intro pos
  obtain ⟨hpos, hasked, hresult⟩ := h pos
  change Attempt.Alike S (Reading.bind reading next pos) (Reading.bind other next' pos)
  unfold Reading.bind
  rcases hresult with ⟨e, herror, herror'⟩ | ⟨a, b, hok, hok', hrelated⟩
  · simp only [herror, herror']
    exact ⟨hpos, hasked, Or.inl ⟨e, rfl, rfl⟩⟩
  · obtain ⟨hpos', hasked', hresult'⟩ := hnext a b hrelated (other pos).pos
    simp only [hok, hok', hpos, hasked]
    exact ⟨hpos', congrArg _ hasked', hresult'⟩

end Reading

/-- Two instructions that take the same bytes and have the same operands. -/
structure Instruction.SameExtent (i j : Instruction) : Prop where
  address : i.address = j.address
  word : i.word = j.word
  xWords : i.xWords = j.xWords
  yWords : i.yWords = j.yWords
  length : i.length = j.length
  xValue : i.xValue = j.xValue
  yValue : i.yValue = j.yValue
  fields : i.fields = j.fields

/-- An instruction is known up to names by its address, its words and what its definition
renames. -/
theorem Instruction.SameExtent.of_renames {address word : Int} {d other : Definition}
    {xWords yWords : List Int} (h : d.Renames other) :
    SameExtent ⟨address, word, d, xWords, yWords⟩ ⟨address, word, other, xWords, yWords⟩ where
  address := rfl
  word := rfl
  xWords := rfl
  yWords := rfl
  length := rfl
  xValue := rfl
  yValue := rfl
  fields := by
    unfold Instruction.fields
    rw [h.format]

/-- Two outcomes that are instructions of the same extent. -/
def Source.Outcome.SameExtent (first second : Source.Outcome) : Prop :=
  ∃ i j, first = .instruction i ∧ second = .instruction j ∧ i.SameExtent j

namespace Source

variable {source : Source} {table table' : Table}

/-- Tables that differ in new names alone decode a word alike. -/
theorem decodeRead_alike (h : ∀ w, (table.decode w).Renames (table'.decode w)) (word : Int) :
    Reading.Alike Definition.Renames (decodeRead table word) (decodeRead table' word) := by
  unfold decodeRead Table.decodeNumber
  cases Word.ofInt word with
  | error refused => exact Reading.Alike.fail _
  | ok w => exact Reading.Alike.pure (h w)

/-- Under tables that differ only in names, a fetch reads the same words. -/
theorem fetch_alike (h : ∀ w, (table.decode w).Renames (table'.decode w)) :
    Reading.Alike Instruction.SameExtent (source.fetch table) (source.fetch table') := by
  unfold fetch
  refine (Reading.Alike.refl Reading.position).bind fun pos _ hpos => ?_
  subst hpos
  refine (Reading.Alike.refl source.readWord).bind fun word _ hword => ?_
  subst hword
  refine (decodeRead_alike h word).bind fun d other hrenames => ?_
  -- The counts of operand words agree, so both sides read on alike.
  rw [← hrenames.xCount, ← hrenames.yCount]
  refine (Reading.Alike.refl (source.readWord.times d.xCount.val)).bind fun xWords _ hx => ?_
  subst hx
  refine (Reading.Alike.refl (source.readWord.times d.yCount.val)).bind fun yWords _ hy => ?_
  subst hy
  exact Reading.Alike.pure (Instruction.SameExtent.of_renames hrenames)

/-- Tables that differ in new names alone fetch alike. -/
theorem perform_fetch_alike (h : ∀ w, (table.decode w).Renames (table'.decode w)) :
    Reading.Alike Outcome.SameExtent (source.perform table .fetch)
      (source.perform table' .fetch) := by
  unfold perform
  refine (fetch_alike h).bind fun i j hsame => ?_
  exact Reading.Alike.pure ⟨i, j, rfl, rfl, hsame⟩

/-- Steps that go alike make runs that go alike, step by step. -/
theorem run_alike {R : Outcome → Outcome → Prop} {steps : List Step}
    (h : ∀ step ∈ steps, Reading.Alike R (source.perform table step) (source.perform table' step))
    (pos : Int) (k : Nat) (hk : k < steps.length) :
    ∃ first second, (source.run table pos steps)[k]? = some first ∧
      (source.run table' pos steps)[k]? = some second ∧ Attempt.Alike R first second := by
  induction steps generalizing pos k with
  | nil => exact absurd hk (Nat.not_lt_zero k)
  | cons step rest ih =>
      have hstep := h step List.mem_cons_self pos
      cases k with
      | zero => exact ⟨_, _, rfl, rfl, hstep⟩
      | succ k =>
          -- Both runs go on from the position at which the step left them.
          have hrest := ih (fun other ho => h other (List.mem_cons_of_mem _ ho))
            (source.perform table step pos).pos k (Nat.lt_of_succ_lt_succ hk)
          rw [run_cons, run_cons, List.getElem?_cons_succ, List.getElem?_cons_succ, ← hstep.pos]
          exact hrest

open Catalogs Table

/-- **Overlays move no instruction boundary.**  Fetch after fetch, two choices of overlays give the
same error or instructions of the same extent, and leave the source at the same position with the
same addresses asked for. -/
theorem choices_fetch_alike (catalogs : Catalogs) (options options' : OverlaySet)
    (haccepted : catalogs.validate = .ok ())
    (hfits : (catalogs.applied options).length ≤ 65536)
    (hfits' : (catalogs.applied options').length ≤ 65536) :
    ∃ table table', build catalogs options = .ok table ∧ build catalogs options' = .ok table' ∧
      ∀ (source : Source) (pos : Int) (n k : Nat), k < n →
        ∃ first second, (source.run table pos (List.replicate n .fetch))[k]? = some first ∧
          (source.run table' pos (List.replicate n .fetch))[k]? = some second ∧
          Attempt.Alike Outcome.SameExtent first second := by
  have hvalid := validate_eq_ok_iff_valid.mp haccepted
  obtain ⟨table, hbuild, -, hlast⟩ := exists_table haccepted hfits
  obtain ⟨table', hbuild', -, hlast'⟩ := exists_table haccepted hfits'
  have hrenames : ∀ w, (table.decode w).Renames (table'.decode w) := fun w =>
    (hvalid.lastClaims_alike (hlast w) (hlast' w)).1
  refine ⟨table, table', hbuild, hbuild', fun source pos n k hk => ?_⟩
  apply run_alike
  · intro step hstep
    rw [List.eq_of_mem_replicate hstep]
    exact perform_fetch_alike hrenames
  · rw [List.length_replicate]
    exact hk

/-- A buffer with one whole instruction and half of another, read twice. -/
theorem choices_fetch_pairCatalogs :
    pairCatalogs.validate = .ok () ∧ (pairCatalogs.applied .empty).length ≤ 65536 ∧
      (pairCatalogs.applied .full).length ≤ 65536 ∧
      ∃ table table',
        build pairCatalogs .empty = .ok table ∧ build pairCatalogs .full = .ok table' ∧
        ∀ k, k < 2 → ∃ first second,
          ((buffer [0x12, 0x34, 0xAB, 0xCD, 0x12, 0x99] 0x100).run table 0
            (List.replicate 2 .fetch))[k]? = some first ∧
          ((buffer [0x12, 0x34, 0xAB, 0xCD, 0x12, 0x99] 0x100).run table' 0
            (List.replicate 2 .fetch))[k]? = some second ∧
          Attempt.Alike Outcome.SameExtent first second := by
  have hfits := length_applied_pairCatalogs .empty
  have hfits' := length_applied_pairCatalogs .full
  obtain ⟨table, table', hbuild, hbuild', halike⟩ :=
    choices_fetch_alike pairCatalogs .empty .full validate_pairCatalogs hfits hfits'
  exact ⟨validate_pairCatalogs, hfits, hfits', table, table', hbuild, hbuild', halike _ 0 2⟩

end Source

end WordAtlas
