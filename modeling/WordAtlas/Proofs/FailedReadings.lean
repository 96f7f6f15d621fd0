import WordAtlas.Proofs.LookingAhead

/-!
# Failed readings

A look, a reading of a word and the reading of a layout all find out whether they can be done before
they move, so when one fails, the position is where it was.  There is one exception: a layout of
more than one item is read to its end, and only then refused (`Source.Unpacks`).  That happens
exactly where the bytes of the layout are there (`Source.Supplies`), so every other failure consumes
nothing.

Hence a failed reading can be left out of a run without a difference to the rest of it.  The main
statement is `Source.only_several_items_consume`, and `Source.several_items_consumed` shows the
exception.
-/

namespace WordAtlas

/-- To make something of what was read reads nothing more. -/
theorem Reading.bind_pure_apply {α β : Type} (reading : Reading α) (f : α → β) (pos : Int) :
    (reading >>= fun a => pure (f a)) pos =
      ⟨(reading pos).result.map f, (reading pos).pos, (reading pos).asked⟩ := by
  cases hfirst : reading pos with
  | mk result stop asked =>
      cases result with
      | error e => exact bind_of_error hfirst
      | ok a =>
          rw [bind_of_ok hfirst rfl, List.append_nil]
          rfl

namespace Source

variable {source : Source} {table : Table} {layout : Layout} {pos : Int}

/-! ## Where the bytes of a layout are -/

/-- The bytes of a layout can be taken from a position.  In a buffer they lie behind it, gaps
included, or they are counted from the end and lie entirely on that side of the start.  In a memory
they lie within the address space, and every cell holds a byte. -/
def Supplies : Source → Layout → Int → Prop
  | buffer bytes _, layout, pos => pos + layout.span ≤ bytes.length ∧
      (0 ≤ pos ∨ pos + layout.packedSize ≤ 0 ∧ 0 ≤ pos + bytes.length)
  | memory cells, layout, pos => pos + layout.span ≤ addressSpace ∧
      ∀ address, pos ≤ address → address < pos + layout.span → HoldsByte cells address

/-- Bytes are found exactly under a condition, and what is the matter otherwise is not the number of
items. -/
inductive FindsIff (supplied : Prop) : Except StreamError (List UInt8) → Prop
  | found {found : List UInt8} (h : supplied) : FindsIff supplied (.ok found)
  | missing {e : StreamError} (h : ¬ supplied) (he : e ≠ .severalItems) :
      FindsIff supplied (.error e)

/-- A condition may be put as another one that is equivalent. -/
theorem FindsIff.congr {supplied other : Prop} {result : Except StreamError (List UInt8)}
    (h : FindsIff supplied result) (hiff : supplied ↔ other) : FindsIff other result :=
  propext hiff ▸ h

/-- What is done to the bytes that were found does not change whether there are any. -/
theorem FindsIff.map {supplied : Prop} {result : Except StreamError (List UInt8)}
    (h : FindsIff supplied result) (f : List UInt8 → List UInt8) :
    FindsIff supplied (result.map f) := by
  cases h with
  | found h => exact .found h
  | missing h he => exact .missing h he

/-- A piece of a buffer is found behind a position, or, if it is counted from the end, where it lies
between the beginning and the end. -/
theorem slice_findsIff (bytes : List UInt8) (pos : Int) (size : Nat) :
    FindsIff (0 ≤ pos ∨ pos + size ≤ 0 ∧ 0 ≤ pos + bytes.length) (slice bytes pos size) := by
  unfold slice
  by_cases hbefore : pos < 0
  · -- Counted from the end, the bytes must end before the start too, and not begin too far back.
    rw [if_pos hbefore]
    by_cases hacross : 0 < pos + size
    · rw [if_pos hacross]
      exact .missing (by omega) (by simp)
    rw [if_neg hacross]
    by_cases hout : pos + bytes.length < 0
    · rw [if_pos hout]
      exact .missing (by omega) (by simp)
    · rw [if_neg hout]
      exact .found (by omega)
  · rw [if_neg hbefore]
    exact .found (Or.inl (Int.not_lt.mp hbefore))

/-- By induction on their number, cells give bytes if each of them holds one. -/
theorem cellBytes_findsIff (cells : Int → Option Int) (start : Int) (count : Nat) :
    FindsIff (∀ address, start ≤ address → address < start + count → HoldsByte cells address)
      (cellBytes cells start count).1 := by
  induction count generalizing start with
  | zero => exact .found (by omega)
  | succ count ih =>
      rcases holdsByte_or_lacksByte cells start with hholds | ⟨e, hlacks⟩
      · obtain ⟨z, hcell, hnonneg, hlt⟩ := id hholds
        obtain ⟨n, rfl⟩ := Int.eq_ofNat_of_zero_le hnonneg
        rw [cellBytes_of_holdsByte hcell (by omega)]
        refine ((ih (start + 1)).map _).congr ⟨fun hrest address hle hlt => ?_,
          fun hall address hle hlt => hall address (by omega) (by omega)⟩
        by_cases hfirst : address = start
        · rw [hfirst]
          exact hholds
        · exact hrest address (by omega) (by omega)
      · rw [cellBytes_of_lacksByte hlacks]
        refine .missing (fun hall => ?_) ?_
        · exact (hall start (Int.le_refl start) (by omega)).not_lacksByte e hlacks
        · cases hlacks <;> simp

/-- The bytes of a layout are found exactly where the source supplies them. -/
theorem bytesAt_findsIff (source : Source) (layout : Layout) (pos : Int) :
    FindsIff (source.Supplies layout pos) (source.bytesAt layout pos).1 := by
  cases source with
  | buffer bytes base =>
      rw [bytesAt]
      by_cases hshort : (bytes.length : Int) - pos < layout.span
      · rw [if_pos hshort]
        exact .missing (fun h => absurd h.1 (by omega)) (by simp)
      · rw [if_neg hshort]
        exact (slice_findsIff bytes pos layout.packedSize).congr (and_iff_right (by omega)).symm
  | memory cells =>
      rw [bytesAt]
      by_cases hshort : addressSpace < pos + layout.span
      · rw [if_pos hshort]
        exact .missing (fun h => absurd h.1 (Int.not_le.mpr hshort)) (by simp)
      · rw [if_neg hshort]
        exact (cellBytes_findsIff cells pos layout.span).congr
          (and_iff_right (Int.not_lt.mp hshort)).symm

/-! ## Readings of layouts -/

/-- The three ways in which the reading of a layout ends.  Only where its bytes are missing does the
position stay. -/
inductive Unpacks (source : Source) (layout : Layout) (pos : Int) : Attempt Int → Prop
  | single {z : Int} {asked : List Int} (hbytes : source.Supplies layout pos)
      (hitems : layout.rest = []) : Unpacks source layout pos ⟨.ok z, pos + layout.span, asked⟩
  | several {asked : List Int} (hbytes : source.Supplies layout pos) (hitems : layout.rest ≠ []) :
      Unpacks source layout pos ⟨.error .severalItems, pos + layout.span, asked⟩
  | missing {e : StreamError} {asked : List Int} (hbytes : ¬ source.Supplies layout pos)
      (he : e ≠ .severalItems) : Unpacks source layout pos ⟨.error e, pos, asked⟩

/-- Whatever the source, a reading of a layout ends in one of the three ways. -/
theorem unpack_unpacks (source : Source) (layout : Layout) (pos : Int) :
    source.Unpacks layout pos (source.unpack layout pos) := by
  have hfinds := bytesAt_findsIff source layout pos
  cases hresult : (source.bytesAt layout pos).1 with
  | error e =>
      obtain ⟨asked, hunpack⟩ := unpack_of_error hresult
      rw [hunpack]
      rw [hresult] at hfinds
      cases hfinds with
      | missing hbytes he => exact .missing hbytes he
  | ok found =>
      obtain ⟨asked, hunpack⟩ := unpack_of_ok hresult
      rw [hunpack]
      rw [hresult] at hfinds
      cases hfinds with
      | found hbytes =>
          by_cases hitems : layout.rest = []
          · rw [if_pos (List.isEmpty_iff.mpr hitems)]
            exact .single hbytes hitems
          · rw [if_neg (mt List.isEmpty_iff.mp hitems)]
            exact .several hbytes hitems

/-- A layout of several items is refused exactly where it could be read. -/
theorem unpack_refuses_iff :
    (source.unpack layout pos).result = .error .severalItems ↔
      layout.rest ≠ [] ∧ source.Supplies layout pos := by
  cases hattempt : source.unpack layout pos with
  | mk result stop asked =>
      have hunpacks := unpack_unpacks source layout pos
      rw [hattempt] at hunpacks
      cases hunpacks with
      | single hbytes hitems => exact iff_of_false (by simp) fun h => h.1 hitems
      | several hbytes hitems => exact iff_of_true rfl ⟨hitems, hbytes⟩
      | missing hbytes he =>
          exact iff_of_false (fun h => he (Except.error.inj h)) fun h => hbytes h.2

/-- A layout that could not be read leaves the position where it was; one that is refused does
not. -/
theorem pos_unpack_of_error {e : StreamError} (h : (source.unpack layout pos).result = .error e) :
    (source.unpack layout pos).pos = if e = .severalItems then pos + layout.span else pos := by
  cases hattempt : source.unpack layout pos with
  | mk result stop asked =>
      have hunpacks := unpack_unpacks source layout pos
      rw [hattempt] at hunpacks h
      cases hunpacks with
      | single hbytes hitems => cases h
      | several hbytes hitems =>
          cases h
          rw [if_pos rfl]
      | missing hbytes he =>
          cases h
          rw [if_neg he]

/-- A word that cannot be read leaves the position where it was. -/
theorem pos_readWord_of_error {e : StreamError} (h : (source.readWord pos).result = .error e) :
    (source.readWord pos).pos = pos := by
  have hword : e ≠ .severalItems := by
    intro heq
    subst heq
    exact (unpack_refuses_iff.mp h).1 rfl
  have hstop := pos_unpack_of_error h
  rwa [if_neg hword] at hstop

/-! ## Steps and runs -/

/-- A step that reads at one place. -/
def Step.ReadsAtOnce : Step → Prop
  | peek _ => True
  | read => True
  | unpack _ => True
  | _ => False

/-- A step at one place that fails leaves the position where it was, unless it refuses the number of
items. -/
theorem pos_perform_of_error {step : Step} (hstep : step.ReadsAtOnce) {e : StreamError}
    (h : (source.perform table step pos).result = .error e) (he : e ≠ .severalItems) :
    (source.perform table step pos).pos = pos := by
  have herror : ∀ {reading : Reading Int},
      ((reading pos).result.map Outcome.number) = .error e → (reading pos).result = .error e := by
    intro reading hmap
    cases hresult : (reading pos).result with
    | ok z =>
        rw [hresult] at hmap
        cases hmap
    | error e' =>
        rw [hresult] at hmap
        cases hmap
        rfl
  cases step with
  | peek offset =>
      rw [perform, Reading.bind_pure_apply]
      exact pos_peek source offset pos
  | read =>
      rw [perform, Reading.bind_pure_apply] at h ⊢
      exact pos_readWord_of_error (herror h)
  | unpack layout =>
      rw [perform, Reading.bind_pure_apply] at h ⊢
      have hstop := pos_unpack_of_error (herror h)
      rwa [if_neg he] at hstop
  | seek target => cases hstep
  | fetch => cases hstep

/-- A run goes on from where its first part ends. -/
theorem run_append (source : Source) (table : Table) (pos : Int) (before after : List Step) :
    source.run table pos (before ++ after) = source.run table pos before ++
      source.run table (behind pos (source.run table pos before)) after := by
  induction before generalizing pos with
  | nil => rfl
  | cons step rest ih =>
      rw [List.cons_append, run_cons, run_cons, ih, behind_cons, List.cons_append]

/-- A run has an attempt for each of its steps. -/
theorem length_run (source : Source) (table : Table) (pos : Int) (steps : List Step) :
    (source.run table pos steps).length = steps.length := by
  induction steps generalizing pos with
  | nil => rfl
  | cons step rest ih => rw [run_cons, List.length_cons, List.length_cons, ih]

/-- Without a step that failed where it was, the other steps of a run come to the same. -/
theorem eraseIdx_run {before after : List Step} {step : Step} (hstep : step.ReadsAtOnce)
    {attempt : Attempt Outcome} {e : StreamError}
    (hattempt : (source.run table pos (before ++ step :: after))[before.length]? = some attempt)
    (herror : attempt.result = .error e) (he : e ≠ .severalItems) :
    (source.run table pos (before ++ step :: after)).eraseIdx before.length =
      source.run table pos (before ++ after) := by
  have hlength := length_run source table pos before
  rw [run_append, run_cons, List.getElem?_append_right (Nat.le_of_eq hlength), hlength, Nat.sub_self,
    List.getElem?_cons_zero] at hattempt
  cases hattempt
  rw [run_append, run_cons, pos_perform_of_error hstep herror he, run_append,
    List.eraseIdx_append_of_length_le (Nat.le_of_eq hlength), hlength, Nat.sub_self,
    List.eraseIdx_cons_zero]

/-- **Only several items consume anything in vain.**  A look moves nothing, and neither do a failed
reading of a word or a failed reading of a layout, unless the layout has several items and its bytes
are there: then the position is behind them.  A failed reading that is no such refusal can be left
out of a run, and the rest of the run is the same. -/
theorem only_several_items_consume (source : Source) :
    (∀ pos offset, (source.peek offset pos).pos = pos) ∧
    (∀ pos e, (source.readWord pos).result = .error e → (source.readWord pos).pos = pos) ∧
    (∀ layout pos e, (source.unpack layout pos).result = .error e →
      (source.unpack layout pos).pos = if e = .severalItems then pos + layout.span else pos) ∧
    (∀ layout pos, (source.unpack layout pos).result = .error .severalItems ↔
      layout.rest ≠ [] ∧ source.Supplies layout pos) ∧
    ∀ (table : Table) (pos : Int) (before after : List Step) (step : Step) (attempt : Attempt Outcome)
      (e : StreamError), step.ReadsAtOnce →
      (source.run table pos (before ++ step :: after))[before.length]? = some attempt →
      attempt.result = .error e → e ≠ .severalItems →
      (source.run table pos (before ++ step :: after)).eraseIdx before.length =
        source.run table pos (before ++ after) := by
  refine ⟨fun pos offset => source.pos_peek offset pos, fun _ _ => pos_readWord_of_error,
    fun _ _ _ => pos_unpack_of_error, fun _ _ => unpack_refuses_iff, ?_⟩
  intro table pos before after step attempt e hstep hattempt herror he
  exact eraseIdx_run hstep hattempt herror he

open Table

/-- An integer of eight bytes. -/
def eightBytes : Layout :=
  ⟨none, ⟨.eight, false⟩, []⟩

/-- Eight bytes are not left where a word was read, and there are none at the address before a
memory's first byte. -/
theorem only_several_items_consume_pairBytes :
    ∃ table, build pairCatalogs .empty = .ok table ∧
      ((buffer pairBytes 0x100).readWord 7).result = .error .tooShort ∧
      ((buffer pairBytes 0x100).readWord 7).pos = 7 ∧
      ((memory (image pairBytes 0x100)).unpack eightBytes 0xFF).result = .error .unmapped ∧
      ((memory (image pairBytes 0x100)).unpack eightBytes 0xFF).pos = 0xFF ∧
      ((buffer pairBytes 0x100).run table 1 [.read, .unpack eightBytes, .read]).eraseIdx 1 =
        (buffer pairBytes 0x100).run table 1 [.read, .read] := by
  obtain ⟨table, hbuild, -⟩ := exists_fetch_pairBytes
  have hword : ((buffer pairBytes 0x100).readWord 7).result = .error .tooShort := rfl
  have hwide : ((memory (image pairBytes 0x100)).unpack eightBytes 0xFF).result =
      .error .unmapped := rfl
  obtain ⟨-, hread, -, -, hrun⟩ := only_several_items_consume (buffer pairBytes 0x100)
  obtain ⟨-, -, hunpack, -, -⟩ := only_several_items_consume (memory (image pairBytes 0x100))
  exact ⟨table, hbuild, hword, hread 7 _ hword, hwide, hunpack eightBytes 0xFF _ hwide,
    hrun table 1 [.read] [.read] (.unpack eightBytes) _ _ trivial rfl rfl (by simp)⟩

/-- Two single bytes. -/
def twoBytes : Layout :=
  ⟨none, ⟨.one, false⟩, [⟨.one, false⟩]⟩

/-- **A failed reading that consumes.**  Two single bytes that lie there are refused, and the
position is behind them, in a buffer as in a memory. -/
theorem several_items_consumed :
    Layout.ofText? "BB" = some twoBytes ∧
    (buffer [0x12, 0x34] 0).unpack twoBytes 0 = ⟨.error .severalItems, 2, []⟩ ∧
    (memory fun _ => some 0xAB).unpack twoBytes 0 = ⟨.error .severalItems, 2, [0, 1]⟩ ∧
    ¬ ∀ (source : Source) (layout : Layout) (pos : Int) (e : StreamError),
      (source.unpack layout pos).result = .error e → (source.unpack layout pos).pos = pos := by
  refine ⟨by decide, rfl, rfl, fun hall => ?_⟩
  have hstays := hall (buffer [0x12, 0x34] 0) twoBytes 0 .severalItems rfl
  exact absurd hstays (by decide)

end Source

end WordAtlas
