import Mathlib.Data.List.Forall2
import WordAtlas.Catalog.Shipped
import WordAtlas.Proofs.Validity

/-!
# The examination entry by entry

The examination of a catalog keeps a list of the entries accepted so far and holds each new entry
against their ranges.  This file says which entries are accepted, and what is reported about the
others, without ranges and without that list.  An entry is *accepted* when it is clean and shares no
word with an accepted entry before it (`Catalog.Accepts`).  About an entry that is not accepted
exactly one thing is *reported*, the first of three that can be wrong with it; if it is an overlap,
then with the least word that an accepted entry before it claims as well (`Catalog.Reports`).

The list of the examination holds the accepted entries before a position (`Catalog.Collects`), and
every step keeps it so.  No word belongs to two accepted entries (`HasOwner.unique`), so although
the list is searched from its latest entry on, there is only one entry to be found.  The main
statement is `faults_pairwise`.
-/

namespace WordAtlas

namespace Catalog

/-- Whether the entry at a position is accepted: it is clean, and it shares no word with an accepted
entry before it. -/
def Accepts (catalog : Catalog) (position : Nat) : Prop :=
  ∃ d, catalog[position]? = some d ∧ d.IsClean ∧
    ∀ earlier, earlier < position → catalog.Accepts earlier →
      ∀ e, catalog[earlier]? = some e → d.Apart e
termination_by position

/-- The entry `e`, which stands at `owner` before the position, is accepted and claims the word. -/
structure HasOwner (catalog : Catalog) (position : Nat) (w : Word) (owner : Nat)
    (e : Definition) : Prop where
  earlier : owner < position
  accepted : catalog.Accepts owner
  at_owner : catalog[owner]? = some e
  covers : e.covers w.val = true

/-- What is reported about the entry at a position, and with which message, if the entry is not
accepted. -/
inductive Reports (label : String) (catalog : Catalog) (position : Nat) : Fault → String → Prop
  /-- The mask is not a run of set high bits. -/
  | maskShape {d : Definition} (hat : catalog[position]? = some d)
      (hmask : ¬ ∃ k, k ≤ 16 ∧ d.mask.val = 2 ^ 16 - 2 ^ k) :
      Reports label catalog position (.maskShape d)
        (label ++ ": " ++ (d.label ++ " has non-prefix mask " ++ Text.Hex.padded 4 d.mask.val))
  /-- The mask is in order, but the encoding sets bits outside it. -/
  | strayBits {d : Definition} (hat : catalog[position]? = some d)
      (hmask : ∃ k, k ≤ 16 ∧ d.mask.val = 2 ^ 16 - 2 ^ k)
      (hencoding : d.encoding.val &&& d.mask.val ≠ d.encoding.val) :
      Reports label catalog position (.strayBits d)
        (label ++ ": " ++ (d.label ++ " sets bits outside mask " ++ Text.Hex.padded 4 d.mask.val))
  /-- The entry is clean, but an accepted entry before it claims a word of it.  The word is the
  least of this kind, and only one accepted entry claims it. -/
  | overlap {d e : Definition} {w : Word} {owner : Nat} (hat : catalog[position]? = some d)
      (hclean : d.IsClean) (hcovers : d.covers w.val = true)
      (howner : catalog.HasOwner position w owner e)
      (honly : ∀ other f, catalog.HasOwner position w other f → other = owner)
      (hleast : ∀ v : Word, d.covers v.val = true →
        ∀ other f, catalog.HasOwner position v other f → w ≤ v) :
      Reports label catalog position (.overlap d e w.val)
        (label ++ ": " ++
          (d.label ++ " overlaps " ++ e.label ++ " at word " ++ Text.Hex.padded 4 w.val))

variable {label : String} {catalog : Catalog} {position : Nat}

/-! ## Accepted entries -/

/-- An entry is accepted exactly if it is clean and apart from all accepted entries before it. -/
theorem accepts_iff {d : Definition} (hat : catalog[position]? = some d) :
    catalog.Accepts position ↔ d.IsClean ∧ ∀ earlier, earlier < position →
      catalog.Accepts earlier → ∀ e, catalog[earlier]? = some e → d.Apart e := by
  rw [Accepts]
  constructor
  · intro h
    obtain ⟨e, he, hclean, hapart⟩ := h
    rw [hat] at he
    cases he
    exact ⟨hclean, hapart⟩
  · intro h
    exact ⟨d, hat, h⟩

/-- No two accepted entries claim a word. -/
theorem HasOwner.unique {w : Word} {owner other : Nat} {e f : Definition}
    (h : catalog.HasOwner position w owner e) (h' : catalog.HasOwner position w other f) :
    other = owner := by
  have hnot : ∀ {first second : Nat} {a b : Definition}, catalog.HasOwner position w first a →
      catalog.HasOwner position w second b → ¬ first < second := by
    intro first second a b ha hb hlt
    have hapart := ((accepts_iff hb.at_owner).mp hb.accepted).2 first hlt ha.accepted a ha.at_owner
    exact hapart w ⟨hb.covers, ha.covers⟩
  have hle := hnot h h'
  have hge := hnot h' h
  omega

/-- A list of the accepted entries before a position. -/
def Collects (catalog : Catalog) (position : Nat) (accepted : List Definition) : Prop :=
  ∀ e, e ∈ accepted ↔
    ∃ earlier, earlier < position ∧ catalog.Accepts earlier ∧ catalog[earlier]? = some e

/-- In front of the first entry nothing has been accepted. -/
theorem collects_zero : catalog.Collects 0 [] := by
  intro e
  simp

section Step

variable {accepted : List Definition} {d : Definition}

/-- Whatever has been accepted is clean. -/
theorem Collects.clean (h : catalog.Collects position accepted) :
    ∀ e ∈ accepted, e.IsClean := by
  intro e he
  obtain ⟨earlier, -, haccepts, hat⟩ := (h e).mp he
  exact ((accepts_iff hat).mp haccepts).1

/-- An entry is accepted when nothing is wrong with its claim. -/
theorem Collects.claimFault?_eq_none_iff (h : catalog.Collects position accepted)
    (hat : catalog[position]? = some d) :
    claimFault? accepted d = none ↔ catalog.Accepts position := by
  rw [Catalog.claimFault?_eq_none_iff h.clean, accepts_iff hat]
  refine and_congr_right fun _ => ?_
  constructor
  · intro hapart earlier hearlier haccepts e he
    exact hapart e ((h e).mpr ⟨earlier, hearlier, haccepts, he⟩)
  · intro hapart e he
    obtain ⟨earlier, hearlier, haccepts, hat'⟩ := (h e).mp he
    exact hapart earlier hearlier haccepts e hat'

/-- An accepted entry is put in front of those accepted before it. -/
theorem Collects.of_accepts (h : catalog.Collects position accepted)
    (hat : catalog[position]? = some d) (haccepts : catalog.Accepts position) :
    catalog.Collects (position + 1) (d :: accepted) := by
  intro e
  rw [List.mem_cons, h e]
  constructor
  · intro he
    rcases he with rfl | ⟨earlier, hearlier, haccepts', hat'⟩
    · exact ⟨position, Nat.lt_succ_self _, haccepts, hat⟩
    · exact ⟨earlier, Nat.lt_succ_of_lt hearlier, haccepts', hat'⟩
  · intro he
    obtain ⟨earlier, hearlier, haccepts', hat'⟩ := he
    by_cases hlast : earlier = position
    · subst hlast
      exact Or.inl (Option.some.inj (hat'.symm.trans hat))
    · exact Or.inr ⟨earlier, by omega, haccepts', hat'⟩

/-- An entry that is not accepted leaves the accepted ones as they are. -/
theorem Collects.of_not_accepts (h : catalog.Collects position accepted)
    (haccepts : ¬ catalog.Accepts position) : catalog.Collects (position + 1) accepted := by
  intro e
  rw [h e]
  constructor
  · intro he
    obtain ⟨earlier, hearlier, hrest⟩ := he
    exact ⟨earlier, Nat.lt_succ_of_lt hearlier, hrest⟩
  · intro he
    obtain ⟨earlier, hearlier, haccepts', hat⟩ := he
    have hne : earlier ≠ position := fun heq => haccepts (heq ▸ haccepts')
    exact ⟨earlier, by omega, haccepts', hat⟩

end Step

/-! ## Overlaps -/

/-- Where the ranges of clean definitions meet is their least common word. -/
theorem meeting?_eq_some {d other : Definition} (hd : d.IsClean) (hother : other.IsClean)
    {word : Nat} (h : meeting? d other = some word) :
    ∃ w : Word, w.val = word ∧ d.covers w.val = true ∧ other.covers w.val = true := by
  unfold meeting? at h
  split at h
  · rename_i hoverlap
    have hword : max d.first other.first = word := Option.some.inj h
    have hend := Definition.stop_le hd
    have hstart := d.first_lt_stop
    have hstart' := other.first_lt_stop
    refine ⟨⟨word, by omega⟩, rfl, ?_, ?_⟩
    · exact (Definition.covers_iff_range hd _).mpr (by simp only; omega)
    · exact (Definition.covers_iff_range hother _).mpr (by simp only; omega)
  · cases h

/-- A common word lies where the ranges meet or behind. -/
theorem exists_meeting?_le {d other : Definition} (hd : d.IsClean) (hother : other.IsClean)
    {w : Word} (hcovers : d.covers w.val = true) (hcovers' : other.covers w.val = true) :
    ∃ word, meeting? d other = some word ∧ word ≤ w.val := by
  have hw := (Definition.covers_iff_range hd w).mp hcovers
  have hw' := (Definition.covers_iff_range hother w).mp hcovers'
  unfold meeting?
  rw [if_pos (by omega)]
  exact ⟨_, rfl, by omega⟩

/-- A clash with the first of the others or with a later one, whichever comes at the smaller
word. -/
theorem clash?_cons_eq_some {d other : Definition} {rest : List Definition}
    {found : Nat × Definition} (h : clash? d (other :: rest) = some found) :
    (clash? d rest = some found ∧ ∀ word, meeting? d other = some word → found.1 ≤ word) ∨
      (found.2 = other ∧ meeting? d other = some found.1 ∧
        ∀ later, clash? d rest = some later → found.1 ≤ later.1) := by
  rw [clash?] at h
  cases hmeet : meeting? d other with
  | none =>
      rw [hmeet] at h
      exact Or.inl ⟨h, by simp⟩
  | some word =>
      rw [hmeet] at h
      cases hrest : clash? d rest with
      | none =>
          simp only [hrest, Option.some.injEq] at h
          subst h
          exact Or.inr ⟨rfl, rfl, by simp⟩
      | some later =>
          simp only [hrest] at h
          by_cases hless : later.1 < word
          · rw [if_pos hless] at h
            refine Or.inl ⟨h, fun word' hword' => ?_⟩
            rw [← Option.some.inj h, ← Option.some.inj hword']
            exact Nat.le_of_lt hless
          · rw [if_neg hless, Option.some.injEq] at h
            subst h
            refine Or.inr ⟨rfl, rfl, fun later' hlater' => ?_⟩
            rw [← Option.some.inj hlater']
            exact Nat.le_of_not_lt hless

/-- The clash that is found is with one of the others, and none of them meets the definition at a
smaller word. -/
theorem clash?_eq_some {d : Definition} {others : List Definition} {found : Nat × Definition}
    (h : clash? d others = some found) :
    found.2 ∈ others ∧ meeting? d found.2 = some found.1 ∧
      ∀ other ∈ others, ∀ word, meeting? d other = some word → found.1 ≤ word := by
  induction others generalizing found with
  | nil => cases h
  | cons other rest ih =>
      rcases clash?_cons_eq_some h with ⟨hrest, hle⟩ | ⟨howner, hmeet, hle⟩
      · obtain ⟨hmem, hmeet, hleast⟩ := ih hrest
        exact ⟨List.mem_cons_of_mem _ hmem, hmeet, List.forall_mem_cons.mpr ⟨hle, hleast⟩⟩
      · rw [howner]
        refine ⟨List.mem_cons_self, hmeet, List.forall_mem_cons.mpr ⟨?_, ?_⟩⟩
        · intro word hword
          exact Nat.le_of_eq (Option.some.inj (hmeet.symm.trans hword))
        · intro later hlater word hword
          cases hrest : clash? d rest with
          | none =>
              rw [clash?_eq_none_iff.mp hrest later hlater] at hword
              cases hword
          | some found' =>
              exact Nat.le_trans (hle found' hrest) ((ih hrest).2.2 later hlater word hword)

/-! ## Reports -/

section Step

variable {accepted : List Definition} {d : Definition}

/-- What is wrong with the claim of an entry is reported about it. -/
theorem Collects.reports (h : catalog.Collects position accepted)
    (hat : catalog[position]? = some d) {fault : Fault}
    (hfault : claimFault? accepted d = some fault) :
    Reports label catalog position fault (Catalogs.Fault.entry label fault).message := by
  unfold claimFault? at hfault
  by_cases hhigh : Mask.isPrefix d.mask = true
  · by_cases hfits : d.fitsMask = true
    · -- The entry is clean, so it clashes with an accepted one.
      simp only [hhigh, hfits, Bool.not_true, Bool.false_eq_true, if_false] at hfault
      obtain ⟨⟨least, e⟩, hclash, rfl⟩ := Option.map_eq_some_iff.mp hfault
      obtain ⟨hmem, hmeet, hleast⟩ := clash?_eq_some hclash
      have hclean : d.IsClean := Definition.isClean_iff.mpr ⟨hhigh, hfits⟩
      obtain ⟨w, rfl, hcovers, hcovers'⟩ := meeting?_eq_some hclean (h.clean e hmem) hmeet
      obtain ⟨owner, hearlier, haccepts, hat'⟩ := (h e).mp hmem
      have howner : catalog.HasOwner position w owner e := ⟨hearlier, haccepts, hat', hcovers'⟩
      refine .overlap hat hclean hcovers howner (fun other f hother => howner.unique hother) ?_
      intro v hv other f hother
      have hmem' : f ∈ accepted :=
        (h f).mpr ⟨other, hother.earlier, hother.accepted, hother.at_owner⟩
      obtain ⟨word, hword, hle⟩ := exists_meeting?_le hclean (h.clean f hmem') hv hother.covers
      exact Nat.le_trans (hleast f hmem' word hword) hle
    · simp only [hhigh, hfits, Bool.not_true, Bool.not_false, Bool.false_eq_true, if_false,
        if_true, Option.some.injEq] at hfault
      subst hfault
      exact .strayBits hat (Mask.isPrefix_iff.mp hhigh) (fun hsame => hfits (beq_iff_eq.mpr hsame))
  · simp only [hhigh, Bool.not_false, if_true, Option.some.injEq] at hfault
    subst hfault
    exact .maskShape hat (fun hmask => hhigh (Mask.isPrefix_iff.mpr hmask))

end Step

/-- The entries that are not accepted, from a position on, and what is reported about them. -/
structure Rejects (label : String) (catalog : Catalog) (start : Nat) (rejected : List Nat)
    (faults : List Fault) : Prop where
  increasing : rejected.Pairwise (· < ·)
  mem_iff : ∀ position, position ∈ rejected ↔
    (start ≤ position ∧ position < catalog.length) ∧ ¬ catalog.Accepts position
  reports : List.Forall₂ (fun position fault =>
    Reports label catalog position fault (Catalogs.Fault.entry label fault).message) rejected faults

/-- The examination from a position on reports about each entry that is not accepted. -/
theorem Collects.exists_rejects {accepted rest : List Definition}
    (h : catalog.Collects position accepted) (hrest : catalog.drop position = rest) :
    ∃ rejected, Rejects label catalog position rejected (claimFaultsAfter accepted rest) := by
  induction rest generalizing accepted position with
  | nil =>
      have hend := List.drop_eq_nil_iff.mp hrest
      exact ⟨[], .nil, fun other => by simp; omega, .nil⟩
  | cons d rest ih =>
      have hat : catalog[position]? = some d := by
        rw [← Nat.add_zero position, ← List.getElem?_drop, hrest]
        rfl
      have htail : catalog.drop (position + 1) = rest := by
        rw [← List.drop_drop, hrest]
        rfl
      obtain ⟨hlt, -⟩ := List.getElem?_eq_some_iff.mp hat
      have hiff := h.claimFault?_eq_none_iff hat
      rw [claimFaultsAfter]
      cases hfault : claimFault? accepted d with
      | none =>
          have haccepts := hiff.mp hfault
          obtain ⟨rejected, hincreasing, hmem, hreports⟩ := ih (h.of_accepts hat haccepts) htail
          refine ⟨rejected, hincreasing, fun other => ?_, hreports⟩
          rw [hmem other]
          refine and_congr_left fun hother => ?_
          have hne : other ≠ position := fun heq => hother (heq ▸ haccepts)
          omega
      | some fault =>
          have haccepts : ¬ catalog.Accepts position := by
            intro haccepts
            rw [hiff.mpr haccepts] at hfault
            cases hfault
          obtain ⟨rejected, hincreasing, hmem, hreports⟩ := ih (h.of_not_accepts haccepts) htail
          refine ⟨position :: rejected, List.pairwise_cons.mpr ⟨?_, hincreasing⟩, fun other => ?_,
            .cons (h.reports hat hfault) hreports⟩
          · intro other hother
            exact ((hmem other).mp hother).1.1
          · rw [List.mem_cons, hmem other]
            by_cases hother : other = position
            · subst hother
              simp [hlt, haccepts]
            · refine ⟨fun hin => ?_, fun hin => ?_⟩
              · obtain ⟨hrange, hnot⟩ := hin.resolve_left hother
                exact ⟨by omega, hnot⟩
              · exact Or.inr ⟨by omega, hin.2⟩

/-- **One report for each entry that is not accepted.**  What the examination finds wrong with the
claims of a catalog, whatever its label, are reports about the entries that are not accepted, one
for each and in their order.  All else that it finds concerns strings. -/
theorem faults_pairwise (label : String) (catalog : Catalog) :
    ∃ rejected reported,
      faults catalog = reported ++ (Token.faults catalog).map .token ∧
        Rejects label catalog 0 rejected reported := by
  obtain ⟨rejected, hrejects⟩ := Collects.exists_rejects collects_zero rfl
  exact ⟨rejected, claimFaultsAfter [] catalog, rfl, hrejects⟩

/-- The second entry is not accepted, so the third one, which lies in its range, is. -/
example :
    let narrow := entry 0x1200 0xFF00 .d 0 0 "LOAD" "" ""
    let wide := entry 0x1000 0xF000 .b 0 0 "MOVE" "" ""
    let beside := entry 0x1300 0xFF00 .d 0 0 "STORE" "" ""
    faults [narrow, wide, beside] = [.overlap wide narrow 0x1200] := by decide

end Catalog

end WordAtlas
