import WordAtlas.Proofs.Examination
import WordAtlas.Proofs.RunLength
import WordAtlas.Table.Build

/-!
# Dense arrays

Two things that are told by lists of ranges here can also be told by arrays with a cell for every
word.

The examination of a catalog can keep, for each word, the position of the accepted entry that claims
it (`Catalog.Owners`).  An entry overlaps another one if some cell of its range is taken, and the
first such cell says where and with which.  While the entries are examined, the array and the list
of accepted entries say the same (`Catalog.Records`, `Catalog.Collects`), so the same is reported
(`Catalog.ownedFaults_eq`).

The runs of a table can be cut out of its slots where neighbouring slots differ (`Run.cut`): each
run goes from one such word, or the first word, to right before the next one, or to the end.  These
are the runs that putting slot in front of slot gives (`Table.runs_eq_cut`).
-/

namespace WordAtlas

/-! ## Owners -/

namespace Catalog

/-- For every word the position of the entry that claims it, if one does. -/
abbrev Owners := Vector (Option Nat) 65536

/-- The first of `count` words, from the word `first` on, that is taken, and its owner. -/
def firstTaken? (owners : Owners) (first : Nat) : Nat → Option (Nat × Nat)
  | 0 => none
  | count + 1 =>
      match owners[first]?.join with
      | some owner => some (first, owner)
      | none => firstTaken? owners (first + 1) count

/-- The first thing that is wrong with the claim of an entry, given the owners of the words. -/
def ownedFault? (catalog : Catalog) (owners : Owners) (d : Definition) : Option Fault :=
  if !Mask.isPrefix d.mask then some (.maskShape d)
  else if !d.fitsMask then some (.strayBits d)
  else do
    let (word, owner) ← firstTaken? owners d.first (d.stop - d.first)
    let other ← catalog[owner]?
    return .overlap d other word

/-- What is wrong with the claims of entries from a position on, given the owners of the words.  An
entry without fault becomes the owner of the words of its range. -/
def ownedFaultsFrom (catalog : Catalog) (owners : Owners) (position : Nat) :
    List Definition → List Fault
  | [] => []
  | d :: rest =>
      match ownedFault? catalog owners d with
      | some fault => fault :: ownedFaultsFrom catalog owners (position + 1) rest
      | none =>
          ownedFaultsFrom catalog (Table.fill owners (some position) d.first (d.stop - d.first))
            (position + 1) rest

/-- What is wrong with the claims of a catalog's entries, by the owners of the words. -/
def ownedFaults (catalog : Catalog) : List Fault :=
  ownedFaultsFrom catalog (Vector.replicate 65536 none) 0 catalog

/-- The cells hold the accepted entries before a position that claim their words. -/
def Records (owners : Owners) (catalog : Catalog) (position : Nat) : Prop :=
  ∀ (w : Word) (owner : Nat),
    owners[w.val]?.join = some owner ↔ ∃ e, catalog.HasOwner position w owner e

/-- The first taken word has an owner, and none before it in the range has one. -/
theorem firstTaken?_eq_some {owners : Owners} {first count word owner : Nat}
    (h : firstTaken? owners first count = some (word, owner)) :
    (first ≤ word ∧ word < first + count) ∧ owners[word]?.join = some owner ∧
      ∀ w, first ≤ w → w < word → owners[w]?.join = none := by
  induction count generalizing first with
  | zero => cases h
  | succ count ih =>
      rw [firstTaken?] at h
      cases hcell : owners[first]?.join with
      | some other =>
          rw [hcell] at h
          cases h
          exact ⟨by omega, hcell, fun w hw hlt => by omega⟩
      | none =>
          rw [hcell] at h
          obtain ⟨hrange, htaken, hbefore⟩ := ih h
          refine ⟨by omega, htaken, fun w hw hlt => ?_⟩
          by_cases hfirst : w = first
          · rw [hfirst]
            exact hcell
          · exact hbefore w (by omega) hlt

/-- If no word is taken, none in the range has an owner. -/
theorem firstTaken?_eq_none {owners : Owners} {first count : Nat}
    (h : firstTaken? owners first count = none) :
    ∀ w, first ≤ w → w < first + count → owners[w]?.join = none := by
  induction count generalizing first with
  | zero =>
      intro w hw hlt
      omega
  | succ count ih =>
      rw [firstTaken?] at h
      cases hcell : owners[first]?.join with
      | some other =>
          rw [hcell] at h
          cases h
      | none =>
          rw [hcell] at h
          intro w hw hlt
          by_cases hfirst : w = first
          · rw [hfirst]
            exact hcell
          · exact ih h w (by omega) (by omega)

variable {catalog : Catalog} {position : Nat} {owners : Owners} {accepted : List Definition}
  {d : Definition}

/-- The owners before the next position are those before this one and perhaps the entry at it. -/
theorem hasOwner_succ_iff {w : Word} {owner : Nat} {e : Definition} (hne : owner ≠ position) :
    catalog.HasOwner (position + 1) w owner e ↔ catalog.HasOwner position w owner e := by
  constructor
  · intro howner
    have hearlier := howner.earlier
    exact ⟨by omega, howner.accepted, howner.at_owner, howner.covers⟩
  · intro howner
    exact ⟨Nat.lt_succ_of_lt howner.earlier, howner.accepted, howner.at_owner, howner.covers⟩

/-- Before the first entry no word has an owner. -/
theorem records_zero : Records (Vector.replicate 65536 none) catalog 0 := by
  intro w owner
  constructor
  · intro h
    rw [Vector.getElem?_replicate] at h
    split at h <;> cases h
  · rintro ⟨e, howner⟩
    exact absurd howner.earlier (Nat.not_lt_zero _)

/-- An entry that is not accepted owns nothing. -/
theorem Records.of_not_accepts (h : Records owners catalog position)
    (haccepts : ¬ catalog.Accepts position) : Records owners catalog (position + 1) := by
  intro w owner
  rw [h w owner]
  constructor
  · intro howned
    obtain ⟨e, howner⟩ := howned
    exact ⟨e, (hasOwner_succ_iff howner.earlier.ne).mpr howner⟩
  · intro howned
    obtain ⟨e, howner⟩ := howned
    have hne : owner ≠ position := fun heq => haccepts (heq ▸ howner.accepted)
    exact ⟨e, (hasOwner_succ_iff hne).mp howner⟩

/-- An entry that is accepted owns the words of its range from then on. -/
theorem Records.of_accepts (h : Records owners catalog position)
    (hat : catalog[position]? = some d) (haccepts : catalog.Accepts position) :
    Records (Table.fill owners (some position) d.first (d.stop - d.first)) catalog
      (position + 1) := by
  have hclean : d.IsClean := ((accepts_iff hat).mp haccepts).1
  have hstop := d.first_lt_stop
  intro w owner
  rw [Vector.getElem?_eq_getElem w.isLt, Table.getElem_fill _ _ _ _ _ w.isLt]
  by_cases hcovers : d.covers w.val = true
  · have hrange := (Definition.covers_iff_range hclean w).mp hcovers
    have hself : catalog.HasOwner (position + 1) w position d :=
      ⟨Nat.lt_succ_self _, haccepts, hat, hcovers⟩
    rw [if_pos (by omega), Option.join_some, Option.some.injEq]
    constructor
    · rintro rfl
      exact ⟨d, hself⟩
    · rintro ⟨e, howner⟩
      exact howner.unique hself
  · have hrange := mt (Definition.covers_iff_range hclean w).mpr hcovers
    have hcell := h w owner
    rw [Vector.getElem?_eq_getElem w.isLt] at hcell
    rw [if_neg (by omega), hcell]
    constructor
    · intro howned
      obtain ⟨e, howner⟩ := howned
      exact ⟨e, (hasOwner_succ_iff howner.earlier.ne).mpr howner⟩
    · intro howned
      obtain ⟨e, howner⟩ := howned
      have hne : owner ≠ position := by
        intro heq
        subst heq
        obtain rfl : d = e := Option.some.inj (hat.symm.trans howner.at_owner)
        exact hcovers howner.covers
      exact ⟨e, (hasOwner_succ_iff hne).mp howner⟩

/-- The first taken word of a clean entry is the least of its words that has an owner. -/
theorem Records.firstTaken?_eq (h : Records owners catalog position) (hclean : d.IsClean) {w : Word}
    {owner : Nat} {e : Definition} (hcovers : d.covers w.val = true)
    (howner : catalog.HasOwner position w owner e)
    (hleast : ∀ v : Word, d.covers v.val = true →
      ∀ other f, catalog.HasOwner position v other f → w ≤ v) :
    firstTaken? owners d.first (d.stop - d.first) = some (w.val, owner) := by
  have hrange := (Definition.covers_iff_range hclean w).mp hcovers
  have hstop := Definition.stop_le hclean
  have htaken := (h w owner).mpr ⟨e, howner⟩
  cases hfirst : firstTaken? owners d.first (d.stop - d.first) with
  | none =>
      have hfree := firstTaken?_eq_none hfirst w.val hrange.1 (by omega)
      rw [hfree] at htaken
      cases htaken
  | some found =>
      obtain ⟨word, other⟩ := found
      obtain ⟨hword, hcell, hbefore⟩ := firstTaken?_eq_some hfirst
      have hlast : word < d.stop := by omega
      let v : Word := ⟨word, Nat.lt_of_lt_of_le hlast hstop⟩
      obtain ⟨f, hother⟩ := (h v other).mp hcell
      have hv : d.covers v.val = true :=
        (Definition.covers_iff_range hclean v).mpr ⟨hword.1, hlast⟩
      have hle : w.val ≤ word := hleast v hv other f hother
      -- no word before the first taken one has an owner, so it is the least
      have hnot : ¬ w.val < word := by
        intro hlt
        have hfree := hbefore w.val hrange.1 hlt
        rw [hfree] at htaken
        cases htaken
      obtain rfl : word = w.val := by omega
      rw [hcell] at htaken
      rw [Option.some.inj htaken]

/-- No word of an accepted entry is taken. -/
theorem Records.firstTaken?_eq_none (h : Records owners catalog position)
    (hat : catalog[position]? = some d) (haccepts : catalog.Accepts position) :
    firstTaken? owners d.first (d.stop - d.first) = none := by
  obtain ⟨hclean, hapart⟩ := (accepts_iff hat).mp haccepts
  have hstop := Definition.stop_le hclean
  cases hfirst : firstTaken? owners d.first (d.stop - d.first) with
  | none => rfl
  | some found =>
      obtain ⟨word, owner⟩ := found
      obtain ⟨hword, hcell, -⟩ := firstTaken?_eq_some hfirst
      have hlast : word < d.stop := by omega
      let v : Word := ⟨word, Nat.lt_of_lt_of_le hlast hstop⟩
      obtain ⟨e, howner⟩ := (h v owner).mp hcell
      have hv : d.covers v.val = true :=
        (Definition.covers_iff_range hclean v).mpr ⟨hword.1, hlast⟩
      have hshared := hapart owner howner.earlier howner.accepted e howner.at_owner v
      exact absurd ⟨hv, howner.covers⟩ hshared

/-- **Owners tell overlaps.**  As long as the array and the list hold the same accepted entries, the
same is found wrong with the next entry. -/
theorem Records.ownedFault?_eq (h : Records owners catalog position)
    (hcollects : catalog.Collects position accepted) (hat : catalog[position]? = some d) :
    ownedFault? catalog owners d = claimFault? accepted d := by
  by_cases hclean : d.IsClean
  · obtain ⟨hhigh, hfits⟩ := Definition.isClean_iff.mp hclean
    have howned : ownedFault? catalog owners d = (do
        let (word, owner) ← firstTaken? owners d.first (d.stop - d.first)
        let other ← catalog[owner]?
        return .overlap d other word) := by
      simp only [ownedFault?, hhigh, hfits, Bool.not_true, Bool.false_eq_true, if_false]
    rw [howned]
    cases hfault : claimFault? accepted d with
    | none =>
        have haccepts := (hcollects.claimFault?_eq_none_iff hat).mp hfault
        rw [h.firstTaken?_eq_none hat haccepts]
        rfl
    | some fault =>
        -- what is reported about a clean entry is an overlap at the least word with an owner
        have hreports := @Collects.reports "" catalog position accepted d hcollects hat fault hfault
        generalize (Catalogs.Fault.entry "" fault).message = message at hreports
        cases hreports with
        | maskShape hat' hmask =>
            obtain rfl := Option.some.inj (hat.symm.trans hat')
            exact absurd hclean.mask hmask
        | strayBits hat' hmask hencoding =>
            obtain rfl := Option.some.inj (hat.symm.trans hat')
            exact absurd hclean.encoding hencoding
        | overlap hat' _ hcovers howner _ hleast =>
            obtain rfl := Option.some.inj (hat.symm.trans hat')
            rw [h.firstTaken?_eq hclean hcovers howner hleast]
            simp only [Option.bind_eq_bind, Option.bind_some, howner.at_owner]
            rfl
  · have hshape : ¬ (Mask.isPrefix d.mask = true ∧ d.fitsMask = true) :=
      mt Definition.isClean_iff.mpr hclean
    unfold ownedFault? claimFault?
    by_cases hhigh : Mask.isPrefix d.mask = true
    · have hfits : d.fitsMask = false := Bool.eq_false_iff.mpr fun hfits => hshape ⟨hhigh, hfits⟩
      simp only [hhigh, hfits, Bool.not_true, Bool.not_false, Bool.false_eq_true, if_false, if_true]
    · simp only [hhigh, Bool.not_false, if_true]

/-- From a position on, the same is found wrong with all entries. -/
theorem Records.ownedFaultsFrom_eq (h : Records owners catalog position)
    (hcollects : catalog.Collects position accepted) {rest : List Definition}
    (hrest : catalog.drop position = rest) :
    ownedFaultsFrom catalog owners position rest = claimFaultsAfter accepted rest := by
  induction rest generalizing owners accepted position with
  | nil => rfl
  | cons d rest ih =>
      have hat : catalog[position]? = some d := by
        rw [← Nat.add_zero position, ← List.getElem?_drop, hrest]
        rfl
      have htail : catalog.drop (position + 1) = rest := by
        rw [← List.drop_drop, hrest]
        rfl
      have hiff := hcollects.claimFault?_eq_none_iff hat
      rw [ownedFaultsFrom, claimFaultsAfter, h.ownedFault?_eq hcollects hat]
      cases hfault : claimFault? accepted d with
      | none =>
          have haccepts := hiff.mp hfault
          exact ih (h.of_accepts hat haccepts) (hcollects.of_accepts hat haccepts) htail
      | some fault =>
          have haccepts : ¬ catalog.Accepts position := by
            intro haccepts
            rw [hiff.mpr haccepts] at hfault
            cases hfault
          exact congrArg _
            (ih (h.of_not_accepts haccepts) (hcollects.of_not_accepts haccepts) htail)

/-- **Owners tell all faults of claims.**  The examination by the owners of the words finds what the
examination by the ranges of the accepted entries finds. -/
theorem ownedFaults_eq (catalog : Catalog) : ownedFaults catalog = claimFaultsAfter [] catalog :=
  records_zero.ownedFaultsFrom_eq collects_zero rfl

end Catalog

/-! ## Boundaries -/

namespace Run

/-- The differences of neighbouring slots. -/
def differences (slots : List Nat) : List Int :=
  List.zipWith (fun (slot next : Nat) => (next : Int) - slot) slots slots.tail

/-- The words whose slots differ from those before them, the first slot being that of the word
`start`. -/
def boundaries (start : Nat) (slots : List Nat) : List Nat :=
  ((differences slots).zipIdx (start + 1)).filterMap fun entry =>
    if entry.1 = 0 then none else some entry.2

/-- The runs that begin at some words and end before others, each with the slot of its first
word. -/
def between (held : Nat → Nat) (starts stops : List Nat) : List Run :=
  List.zipWith (fun first stop => ⟨first, stop - 1, held first⟩) starts stops

/-- The runs of some slots, cut where neighbouring slots differ. -/
def cut (slots : List Nat) : List Run :=
  between (fun w => slots[w]?.getD 0) (0 :: boundaries 0 slots)
    (boundaries 0 slots ++ [slots.length])

/-- A word is a boundary if its slot differs from the one before. -/
theorem boundaries_cons_cons (start slot next : Nat) (rest : List Nat) :
    boundaries start (slot :: next :: rest) =
      if slot = next then boundaries (start + 1) (next :: rest)
      else (start + 1) :: boundaries (start + 1) (next :: rest) := by
  have hdiffer : (next : Int) - slot = 0 ↔ slot = next := by omega
  rw [boundaries, differences, List.tail_cons, List.zipWith_cons_cons, List.zipIdx_cons,
    List.filterMap_cons]
  by_cases hsame : slot = next
  · rw [if_pos hsame, if_pos (hdiffer.mpr hsame)]
    rfl
  · rw [if_neg hsame, if_neg (mt hdiffer.mp hsame)]
    rfl

/-- Cutting some slots at their boundaries gives their runs. -/
theorem between_boundaries {held : Nat → Nat} {start slot : Nat} {slots : List Nat}
    (hheld : ∀ (i n : Nat), (slot :: slots)[i]? = some n → held (start + i) = n) :
    between held (start :: boundaries start (slot :: slots))
        (boundaries start (slot :: slots) ++ [start + (slots.length + 1)]) =
      ofSlots start (slot :: slots) := by
  induction slots generalizing start slot with
  | nil =>
      have hslot : held start = slot := hheld 0 slot rfl
      rw [ofSlots_cons, ofSlots_nil, extend, ← hslot]
      rfl
  | cons next rest ih =>
      have hslot : held start = slot := hheld 0 slot rfl
      have hnext : held (start + 1) = next := hheld 1 next rfl
      have hrest := @ih (start + 1) next fun i n hi => by
        have hlater := hheld (i + 1) n hi
        rw [← Nat.add_assoc, Nat.add_right_comm] at hlater
        exact hlater
      have hend : start + 1 + (rest.length + 1) = start + ((next :: rest).length + 1) := by
        rw [List.length_cons]
        omega
      rw [hend] at hrest
      rw [ofSlots_cons, ← hrest, boundaries_cons_cons]
      by_cases hsame : slot = next
      · -- the first run begins one word earlier
        rw [if_pos hsame]
        cases hstops : boundaries (start + 1) (next :: rest) ++
            [start + ((next :: rest).length + 1)] with
        | nil => simp at hstops
        | cons stop stops =>
            simp only [between, List.zipWith_cons_cons, extend, hnext, hslot, hsame, if_true]
      · -- the first run is the first word alone
        rw [if_neg hsame]
        cases hstops : boundaries (start + 1) (next :: rest) ++
            [start + ((next :: rest).length + 1)] with
        | nil => simp at hstops
        | cons stop stops =>
            have hne : ¬ next = slot := fun heq => hsame heq.symm
            simp only [between, List.cons_append, hstops, List.zipWith_cons_cons, extend, hnext,
              hslot, hne, if_false, Nat.add_sub_cancel]

/-- **Runs are cut at boundaries.**  Cutting some slots where neighbours differ gives their runs. -/
theorem cut_eq_ofSlots {slots : List Nat} (h : slots ≠ []) : cut slots = ofSlots 0 slots := by
  cases slots with
  | nil => exact absurd rfl h
  | cons slot rest =>
      have hcut := @between_boundaries (fun w => (slot :: rest)[w]?.getD 0) 0 slot rest
        fun i n hi => by rw [Nat.zero_add, hi, Option.getD_some]
      rw [Nat.zero_add] at hcut
      exact hcut

end Run

/-- The runs of a table are those between the words where its slots change. -/
theorem Table.runs_eq_cut (table : Table) : table.runs = Run.cut table.slots.toList := by
  have hne : table.slots.toList ≠ [] := by
    intro hnil
    have hlength := congrArg List.length hnil
    rw [Vector.length_toList] at hlength
    cases hlength
  exact (Run.cut_eq_ofSlots hne).symm

end WordAtlas
