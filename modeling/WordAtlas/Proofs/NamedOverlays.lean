import Mathlib.Data.List.Nodup
import WordAtlas.Overlay.Selection
import WordAtlas.Proofs.BlanksAndCase

/-!
# Named overlays

An item of a list spells a name: what is left of it without the white space at its ends, in upper
case (`OverlaySet.Spells`).  Seven names have a meaning (`OverlaySet.meanings`), and since they are
ASCII, it makes no difference how Unicode puts those characters into upper case that have no ASCII
capitals (`OverlaySet.spells_iff`).  What is said below is said of every mapping to upper case.

A list denotes the union of what its items denote, or nothing at all: one item that spells no name
refuses the whole list, and it is the first such item that is reported (`ofItems_eq_error_iff`).  So
all that matters about a list that is accepted are the names spelled in it, blank items aside
(`ofItems_eq_ok_iff_of_spelled`).  Their order and number do not matter, nor does the case of ASCII
letters, because the blanks at the ends of an item and its capitals are the same in either case.

A text is a list of items between commas.  The text of a set names its members, so it denotes the
set again.  The main statement is `OverlaySet.lists_denote_unions`.
-/

namespace WordAtlas

namespace Text

/-! ## Items of a text -/

/-- The pieces of a text are what stands between its separators. -/
theorem pieces_eq_splitOn (separator : Char) (cs : List Char) :
    pieces separator cs = cs.splitOn separator := by
  induction cs with
  | nil => rfl
  | cons c rest ih =>
      rw [List.splitOn_cons_eq_if_modifyHead, ← ih, pieces]
      by_cases hc : c = separator
      · rw [if_pos hc, if_pos (beq_iff_eq.mpr hc)]
      · rw [if_neg hc, if_neg (mt beq_iff_eq.mp hc)]
        cases hp : pieces separator rest with
        | nil => exact absurd hp (pieces_ne_nil separator rest)
        | cons piece more => rfl

/-! ## Letters in either case -/

/-- A character is blank in upper case exactly if it is blank. -/
theorem isBlank_toUpper (c : Char) : isBlank c.toUpper = isBlank c := by
  by_cases hc : c.toNat < 128
  · exact forall_ascii (p := fun c => isBlank c.toUpper = isBlank c) (by decide) hc
  · rw [toUpper_of_not_ascii hc]

/-- A character and its ASCII capital spell the same capitals. -/
theorem upperChar_toUpper (c : Char) : upperChar c.toUpper = upperChar c := by
  by_cases hc : c.toNat < 128
  · exact forall_ascii (p := fun c => upperChar c.toUpper = upperChar c) (by decide) hc
  · rw [toUpper_of_not_ascii hc]

/-- Blanks can be left off before or after the letters are put into upper case. -/
theorem strip_map_toUpper (cs : List Char) :
    strip (cs.map Char.toUpper) = (strip cs).map Char.toUpper := by
  have hblank : isBlank ∘ Char.toUpper = isBlank := funext isBlank_toUpper
  simp only [strip, trimBoth, List.dropWhile_map, ← List.map_reverse, hblank]

/-- Letters in either case spell the same capitals. -/
theorem upper_map_toUpper (cs : List Char) : upper (cs.map Char.toUpper) = upper cs := by
  rw [upper, List.flatMap_map]
  exact congrArg (cs.flatMap ·) (funext upperChar_toUpper)

/-- Nothing is left of a text of blanks. -/
theorem strip_of_blank {cs : List Char} (h : ∀ c ∈ cs, c.toNat ∈ whiteSpace) : strip cs = [] :=
  (isCore_iff.mp ⟨⟨cs, [], by simp, h, by simp⟩, by simp, by simp⟩).symm

end Text

namespace OverlaySet

/-- An item spells the same name in either case. -/
theorem spelledName_map_toUpper (item : List Char) :
    spelledName (item.map Char.toUpper) = spelledName item := by
  rw [spelledName, Text.strip_map_toUpper, Text.upper_map_toUpper, spelledName]

/-- Blanks spell the empty name. -/
theorem spelledName_of_blank {item : List Char} (h : ∀ c ∈ item, c.toNat ∈ Text.whiteSpace) :
    spelledName item = "" := by
  rw [spelledName, Text.strip_of_blank h]
  rfl

/-! ## Items -/

/-- The names that an item may spell, with the overlays that each of them stands for. -/
def meanings : List (String × List Overlay) :=
  [("", []), ("NONE", []), ("ALL", [.stack, .shift, .dmov, .specials]), ("STACK", [.stack]),
   ("SHIFT", [.shift]), ("DMOV", [.dmov]), ("SPECIALS", [.specials])]

/-- An item spells a name: the text without the white space at its ends, put into upper case. -/
def Spells (image : Char → List Char) (item : List Char) (name : String) : Prop :=
  ∃ core, Text.IsCore item core ∧ String.ofList (core.flatMap image) = name

/-- An item that a list may hold: it spells a name that has a meaning. -/
def Accepted (image : Char → List Char) (item : List Char) : Prop :=
  ∃ name members, Spells image item name ∧ (name, members) ∈ meanings

/-- An item that turns an overlay on: it spells a name that stands for the overlay, by itself or
among others. -/
def Adds (image : Char → List Char) (item : List Char) (overlay : Overlay) : Prop :=
  ∃ name members, Spells image item name ∧ (name, members) ∈ meanings ∧ overlay ∈ members

variable {image : Char → List Char} {item : List Char} {s : OverlaySet}

/-- Names that have a meaning are ASCII. -/
theorem ascii_of_mem_meanings {name : String} {members : List Overlay}
    (h : (name, members) ∈ meanings) : ∀ x ∈ name.toList, x.toNat < 128 := by
  have hall : (meanings.all fun entry =>
      entry.1.toList.all fun x => decide (x.toNat < 128)) = true := by
    decide
  intro x hx
  exact of_decide_eq_true (List.all_eq_true.mp (List.all_eq_true.mp hall _ h) x hx)

/-- **Every mapping to upper case finds the same names.**  An item spells a name that has a meaning
exactly if it is the name that the reader finds. -/
theorem spells_iff (himage : Text.IsUppering image) {name : String} {members : List Overlay}
    (hname : (name, members) ∈ meanings) : Spells image item name ↔ spelledName item = name := by
  have hsame : (Text.strip item).flatMap image = name.toList ↔
      (Text.strip item).flatMap Text.upperChar = name.toList :=
    himage.flatMap_eq_iff Text.isUppering_upperChar (ascii_of_mem_meanings hname)
  unfold Spells spelledName Text.upper
  simp only [Text.isCore_iff, exists_eq_left, ← String.toList_inj, String.toList_ofList]
  exact hsame

/-- An item is accepted if the name that the reader finds has a meaning. -/
theorem accepted_iff (himage : Text.IsUppering image) :
    Accepted image item ↔ ∃ members, (spelledName item, members) ∈ meanings := by
  constructor
  · rintro ⟨name, members, hspells, hname⟩
    rw [(spells_iff himage hname).mp hspells]
    exact ⟨members, hname⟩
  · rintro ⟨members, hname⟩
    exact ⟨_, members, (spells_iff himage hname).mpr rfl, hname⟩

/-- An item adds what the name that the reader finds stands for. -/
theorem adds_iff (himage : Text.IsUppering image) {overlay : Overlay} :
    Adds image item overlay ↔
      ∃ members, (spelledName item, members) ∈ meanings ∧ overlay ∈ members := by
  constructor
  · rintro ⟨name, members, hspells, hname, hmember⟩
    rw [(spells_iff himage hname).mp hspells]
    exact ⟨members, hname, hmember⟩
  · rintro ⟨members, hname, hmember⟩
    exact ⟨_, members, (spells_iff himage hname).mpr rfl, hname, hmember⟩

/-- A name denotes a set exactly if it has a meaning and the set holds what it stands for. -/
theorem ofName?_eq_some_iff {name : String} : ofName? name = some s ↔
    ∃ members, (name, members) ∈ meanings ∧
      ∀ overlay, s.contains overlay = true ↔ overlay ∈ members := by
  constructor
  · intro h
    unfold ofName? at h
    split at h
    · rename_i hempty
      cases h
      refine ⟨[], ?_, by simp⟩
      rcases hempty with rfl | rfl <;> decide
    · split at h
      · rename_i hall
        subst hall
        cases h
        refine ⟨[.stack, .shift, .dmov, .specials], by decide, fun overlay => ?_⟩
        cases overlay <;> decide
      · obtain ⟨overlay, hoverlay, rfl⟩ := Option.map_eq_some_iff.mp h
        rw [Overlay.ofName?] at hoverlay
        have hname := List.find?_some hoverlay
        obtain rfl : overlay.name = name := beq_iff_eq.mp hname
        refine ⟨[overlay], ?_, fun other => by simp [eq_comm]⟩
        cases overlay <;> decide
  · rintro ⟨members, hname, hmembers⟩
    have hsame : ∀ t, ofName? name = some t → (∀ overlay, t.contains overlay = true ↔
        overlay ∈ members) → ofName? name = some s := by
      intro t ht hholds
      rw [ht]
      exact congrArg some (ext_contains fun overlay =>
        Bool.eq_iff_iff.mpr ((hholds overlay).trans (hmembers overlay).symm))
    simp only [meanings, List.mem_cons, Prod.mk.injEq, List.not_mem_nil, or_false] at hname
    rcases hname with ⟨rfl, rfl⟩ | ⟨rfl, rfl⟩ | ⟨rfl, rfl⟩ | ⟨rfl, rfl⟩ | ⟨rfl, rfl⟩ | ⟨rfl, rfl⟩ |
      ⟨rfl, rfl⟩
    all_goals exact hsame _ rfl (by intro overlay; cases overlay <;> decide)

/-- An item that spells a name adds what the name stands for and nothing else. -/
theorem Spells.adds_iff (himage : Text.IsUppering image) {name : String} {members : List Overlay}
    (hspells : Spells image item name) (hname : (name, members) ∈ meanings) {overlay : Overlay} :
    Adds image item overlay ↔ overlay ∈ members := by
  constructor
  · rintro ⟨other, others, hspells', hother, hmember⟩
    obtain rfl : other = name :=
      ((spells_iff himage hother).mp hspells').symm.trans ((spells_iff himage hname).mp hspells)
    -- no name stands twice among the names
    have honce : (meanings.map Prod.fst).Nodup := by decide
    obtain rfl : others = members :=
      congrArg Prod.snd (List.inj_on_of_nodup_map honce hother hname rfl)
    exact hmember
  · exact fun hmember => ⟨name, members, hspells, hname, hmember⟩

/-- An item denotes a set exactly if the name that the reader finds does. -/
theorem ofItem_eq_ok_iff : ofItem item = .ok s ↔ ofName? (spelledName item) = some s := by
  unfold ofItem
  cases ofName? (spelledName item) <;> simp

/-- An item denotes a set exactly if it is accepted. -/
theorem exists_ofItem_iff (himage : Text.IsUppering image) :
    (∃ s, ofItem item = .ok s) ↔ Accepted image item := by
  simp only [ofItem_eq_ok_iff, ofName?_eq_some_iff, accepted_iff himage]
  constructor
  · rintro ⟨s, members, hname, -⟩
    exact ⟨members, hname⟩
  · rintro ⟨members, hname⟩
    refine ⟨⟨decide (.stack ∈ members), decide (.shift ∈ members), decide (.dmov ∈ members),
      decide (.specials ∈ members)⟩, members, hname, fun overlay => ?_⟩
    cases overlay <;> exact decide_eq_true_iff

/-- What an item denotes is what it adds. -/
theorem contains_of_ofItem (himage : Text.IsUppering image) (h : ofItem item = .ok s)
    (overlay : Overlay) : s.contains overlay = true ↔ Adds image item overlay := by
  obtain ⟨members, hname, hmembers⟩ := ofName?_eq_some_iff.mp (ofItem_eq_ok_iff.mp h)
  rw [hmembers, Spells.adds_iff himage ((spells_iff himage hname).mpr rfl) hname]

/-- An item that is not accepted is reported by its core. -/
theorem ofItem_of_not_accepted (himage : Text.IsUppering image) (h : ¬ Accepted image item) :
    ofItem item = .error ⟨String.ofList (Text.strip item)⟩ := by
  unfold ofItem
  split
  · rename_i s hs
    exact absurd ((exists_ofItem_iff himage).mp ⟨s, ofItem_eq_ok_iff.mpr hs⟩) h
  · rfl

/-! ## Lists -/

variable {items others : List (List Char)}

/-- An item that denotes a set adds it to what the items behind it denote. -/
theorem ofItems_cons_of_ok (h : ofItem item = .ok s) (rest : List (List Char)) :
    ofItems (item :: rest) = (ofItems rest).map s.union := by
  rw [ofItems, h]
  cases ofItems rest <;> rfl

/-- An item that is refused refuses the list, whatever is behind it. -/
theorem ofItems_cons_of_error {e : Unknown} (h : ofItem item = .error e)
    (rest : List (List Char)) : ofItems (item :: rest) = .error e := by
  rw [ofItems, h]
  rfl

section Uppering

variable (himage : Text.IsUppering image)

include himage

/-- A list denotes something exactly if all its items are accepted. -/
theorem exists_ofItems_iff :
    (∃ s, ofItems items = .ok s) ↔ ∀ item ∈ items, Accepted image item := by
  induction items with
  | nil => exact iff_of_true ⟨_, rfl⟩ (by simp)
  | cons item rest ih =>
      rw [List.forall_mem_cons, ← ih]
      by_cases hitem : Accepted image item
      · obtain ⟨s, hs⟩ := (exists_ofItem_iff himage).mpr hitem
        rw [ofItems_cons_of_ok hs]
        cases ofItems rest <;> simp [Except.map, hitem]
      · rw [ofItems_cons_of_error (ofItem_of_not_accepted himage hitem)]
        simp [hitem]

/-- The members of what a list denotes are what its items add. -/
theorem contains_of_ofItems (h : ofItems items = .ok s) (overlay : Overlay) :
    s.contains overlay = true ↔ ∃ item ∈ items, Adds image item overlay := by
  induction items generalizing s with
  | nil =>
      cases h
      simp
  | cons item rest ih =>
      obtain ⟨hitem, hrest⟩ := List.forall_mem_cons.mp ((exists_ofItems_iff himage).mp ⟨s, h⟩)
      obtain ⟨t, ht⟩ := (exists_ofItem_iff himage).mpr hitem
      obtain ⟨u, hu⟩ := (exists_ofItems_iff himage).mpr hrest
      rw [ofItems_cons_of_ok ht, hu] at h
      cases h
      rw [contains_union, Bool.or_eq_true, contains_of_ofItem himage ht, ih hu]
      simp

/-- A list denotes a set exactly when all its items are accepted and the members of the set are what
they add. -/
theorem ofItems_eq_ok_iff :
    ofItems items = .ok s ↔ (∀ item ∈ items, Accepted image item) ∧
      ∀ overlay, s.contains overlay = true ↔ ∃ item ∈ items, Adds image item overlay := by
  constructor
  · exact fun h => ⟨(exists_ofItems_iff himage).mp ⟨s, h⟩, contains_of_ofItems himage h⟩
  · rintro ⟨haccepted, hmembers⟩
    obtain ⟨t, ht⟩ := (exists_ofItems_iff himage).mpr haccepted
    have hsame : s = t := ext_contains fun overlay =>
      Bool.eq_iff_iff.mpr ((hmembers overlay).trans (contains_of_ofItems himage ht overlay).symm)
    rw [hsame, ht]

/-- The error of a list is its first item that is not accepted, whatever follows. -/
theorem ofItems_eq_error_iff {e : Unknown} :
    ofItems items = .error e ↔ ∃ before item after core, items = before ++ item :: after ∧
      (∀ earlier ∈ before, Accepted image earlier) ∧ ¬ Accepted image item ∧
      Text.IsCore item core ∧ e = ⟨String.ofList core⟩ := by
  constructor
  · intro h
    induction items with
    | nil => cases h
    | cons item rest ih =>
        by_cases hitem : Accepted image item
        · obtain ⟨s, hs⟩ := (exists_ofItem_iff himage).mpr hitem
          have hrest : ofItems rest = .error e := by
            rw [ofItems_cons_of_ok hs] at h
            cases hrest : ofItems rest with
            | error other => rw [hrest] at h; cases h; rfl
            | ok t => rw [hrest] at h; cases h
          obtain ⟨before, refused, after, core, rfl, hbefore, hrefused⟩ := ih hrest
          exact ⟨item :: before, refused, after, core, rfl,
            List.forall_mem_cons.mpr ⟨hitem, hbefore⟩, hrefused⟩
        · rw [ofItems_cons_of_error (ofItem_of_not_accepted himage hitem)] at h
          cases h
          exact ⟨[], item, rest, _, rfl, by simp, hitem, Text.isCore_strip item, rfl⟩
  · rintro ⟨before, item, after, core, rfl, hbefore, hitem, hcore, rfl⟩
    obtain ⟨s, hs⟩ := (exists_ofItems_iff himage).mpr hbefore
    rw [ofItems_append, hs, ofItems_cons_of_error (ofItem_of_not_accepted himage hitem),
      hcore.eq_strip]
    rfl

end Uppering

/-- The message names the item that is not accepted and all that is. -/
theorem Unknown.message_eq (e : Unknown) : e.message = "Unknown output option '" ++ e.item ++
    "' (expected one of: stack, shift, dmov, specials, all, none)" := by
  have hnames : ", ".intercalate (Overlay.all.map Overlay.text) =
      "stack, shift, dmov, specials" := by decide
  have hjoined : "' (expected one of: " ++ "stack, shift, dmov, specials" ++ ", all, none)" =
      "' (expected one of: stack, shift, dmov, specials, all, none)" := by decide
  unfold message
  rw [hnames, ← hjoined]
  simp only [String.append_assoc]

/-! ## What does not matter about a list -/

/-- Every name that some items spell is spelled by others too, blank items aside. -/
def SpelledAmong (items others : List (List Char)) : Prop :=
  ∀ item ∈ items, spelledName item = "" ∨ ∃ other ∈ others, spelledName other = spelledName item

namespace SpelledAmong

/-- If others spell all their names, and these are accepted, then so are the items. -/
theorem accepted (himage : Text.IsUppering image) (h : SpelledAmong items others)
    (haccepted : ∀ other ∈ others, Accepted image other) :
    ∀ item ∈ items, Accepted image item := by
  intro item hitem
  rw [accepted_iff himage]
  rcases h item hitem with hblank | ⟨other, hother, hname⟩
  · exact ⟨[], hblank ▸ List.mem_cons_self⟩
  · rw [← hname]
    exact (accepted_iff himage).mp (haccepted other hother)

/-- What items add is added by others that spell all their names. -/
theorem exists_adds (himage : Text.IsUppering image) (h : SpelledAmong items others)
    {overlay : Overlay} (hadds : ∃ item ∈ items, Adds image item overlay) :
    ∃ other ∈ others, Adds image other overlay := by
  obtain ⟨item, hitem, hadds⟩ := hadds
  rw [adds_iff himage] at hadds
  rcases h item hitem with hblank | ⟨other, hother, hname⟩
  · -- a blank item stands for no overlay
    obtain ⟨members, hmembers, hoverlay⟩ := hadds
    rw [hblank] at hmembers
    simp [meanings] at hmembers
    simp [hmembers] at hoverlay
  · exact ⟨other, hother, (adds_iff himage).mpr (hname ▸ hadds)⟩

/-- Items that are blank or stand among others spell no names beyond theirs. -/
theorem of_subset
    (h : ∀ item ∈ items, item ∈ others ∨ ∀ c ∈ item, c.toNat ∈ Text.whiteSpace) :
    SpelledAmong items others := by
  intro item hitem
  rcases h item hitem with hother | hblank
  · exact Or.inr ⟨item, hother, rfl⟩
  · exact Or.inl (spelledName_of_blank hblank)

/-- Items in another case spell the same names. -/
theorem of_recased (h : items.map (·.map Char.toUpper) = others.map (·.map Char.toUpper)) :
    SpelledAmong items others := by
  intro item hitem
  have hmem : item.map Char.toUpper ∈ others.map (·.map Char.toUpper) :=
    h ▸ List.mem_map_of_mem hitem
  obtain ⟨other, hother, hsame⟩ := List.mem_map.mp hmem
  refine Or.inr ⟨other, hother, ?_⟩
  rw [← spelledName_map_toUpper, hsame, spelledName_map_toUpper]

end SpelledAmong

/-- Lists that spell the same names, blank items aside, denote the same set. -/
theorem ofItems_eq_ok_iff_of_spelled (h : SpelledAmong items others)
    (h' : SpelledAmong others items) : ofItems items = .ok s ↔ ofItems others = .ok s := by
  have himage := Text.isUppering_upperChar
  have haccepted : (∀ item ∈ items, Accepted Text.upperChar item) ↔
      ∀ other ∈ others, Accepted Text.upperChar other :=
    ⟨h'.accepted himage, h.accepted himage⟩
  have hadds : ∀ overlay, (∃ item ∈ items, Adds Text.upperChar item overlay) ↔
      ∃ other ∈ others, Adds Text.upperChar other overlay :=
    fun _ => ⟨h.exists_adds himage, h'.exists_adds himage⟩
  simp only [ofItems_eq_ok_iff himage, haccepted, hadds]

/-- A list with its items in another order, with an item repeated, with a blank item put in, or with
ASCII letters in the other case. -/
inductive Restated : List (List Char) → List (List Char) → Prop
  | reordered {items others : List (List Char)} (h : items.Perm others) : Restated items others
  | repeated {before after : List (List Char)} {item : List Char} (h : item ∈ before ++ after) :
      Restated (before ++ after) (before ++ item :: after)
  | spaced {before after : List (List Char)} {blank : List Char}
      (h : ∀ c ∈ blank, c.toNat ∈ Text.whiteSpace) :
      Restated (before ++ after) (before ++ blank :: after)
  | recased {items others : List (List Char)}
      (h : items.map (·.map Char.toUpper) = others.map (·.map Char.toUpper)) :
      Restated items others

/-- A list that is restated spells the same names as before, blank items aside. -/
theorem Restated.spelledAmong (h : Restated items others) :
    SpelledAmong items others ∧ SpelledAmong others items := by
  cases h with
  | reordered h =>
      exact ⟨.of_subset fun _ hitem => Or.inl (h.subset hitem),
        .of_subset fun _ hother => Or.inl (h.symm.subset hother)⟩
  | repeated h => exact ⟨.of_subset (by grind), .of_subset (by grind)⟩
  | spaced h => exact ⟨.of_subset (by grind), .of_subset (by grind)⟩
  | recased h => exact ⟨.of_recased h, .of_recased h.symm⟩

/-! ## Texts of sets -/

/-- The text of an overlay denotes the overlay. -/
theorem ofItem_text (overlay : Overlay) : ofItem overlay.text.toList = .ok (single overlay) := by
  cases overlay <;> decide

/-- The names of some overlays denote the set of them. -/
theorem ofItems_texts (overlays : List Overlay) :
    ∃ s, ofItems (overlays.map (·.text.toList)) = .ok s ∧
      ∀ overlay, s.contains overlay = true ↔ overlay ∈ overlays := by
  induction overlays with
  | nil => exact ⟨empty, rfl, by simp⟩
  | cons overlay rest ih =>
      obtain ⟨s, hs, hmembers⟩ := ih
      refine ⟨(single overlay).union s, ?_, fun other => ?_⟩
      · rw [List.map_cons, ofItems_cons_of_ok (ofItem_text overlay), hs]
        rfl
      · rw [contains_union, Bool.or_eq_true, hmembers, contains_single, decide_eq_true_iff,
          List.mem_cons, eq_comm]

/-- The names of the members of a set denote the set. -/
theorem ofItems_names (s : OverlaySet) :
    ofItems (s.toList.map fun overlay => overlay.text.toList) = .ok s := by
  obtain ⟨t, ht, hmembers⟩ := ofItems_texts s.toList
  rw [ht]
  exact congrArg Except.ok (ext_contains fun overlay =>
    Bool.eq_iff_iff.mpr ((hmembers overlay).trans mem_toList))

/-- The text of a set denotes the set. -/
theorem ofText_text (s : OverlaySet) : ofText s.text = .ok s := by
  by_cases hempty : s.toList = []
  · have hs : s = empty := ext_contains fun overlay => by
      rw [contains_empty, ← Bool.not_eq_true, ← mem_toList, hempty]
      exact List.not_mem_nil
    rw [hs]
    rfl
  · have htext : s.text.toList =
        [','].intercalate (s.toList.map fun overlay => overlay.text.toList) := by
      rw [text, if_neg (by simpa using hempty), String.toList_intercalate, List.map_map]
      rfl
    have hcomma : ∀ item ∈ s.toList.map (fun overlay => overlay.text.toList), ',' ∉ item := by
      intro item hitem
      obtain ⟨overlay, -, rfl⟩ := List.mem_map.mp hitem
      cases overlay <;> decide
    rw [ofText, Text.pieces_eq_splitOn, htext,
      List.splitOn_intercalate _ hcomma (by simpa using hempty), ofItems_names]

/-- **Lists denote unions.**  Whatever Unicode takes those characters to that have no ASCII
capitals: a list is accepted exactly when each of its items is, and then denotes the overlays that
its items add.  Two lists one after the other denote the union of both.  To put the items into
another order, to repeat one, to put in blank ones, or to change the case of ASCII letters makes no
difference.  If a list is refused, the error names its first item that is not accepted, without the
blanks around it.  A text is the list of what stands between its commas, and the text of a set
denotes the set. -/
theorem lists_denote_unions {image : Char → List Char} (himage : Text.IsUppering image) :
    (∀ (items : List (List Char)) (s : OverlaySet),
      ((∃ t, ofItems items = .ok t) ↔ ∀ item ∈ items, Accepted image item) ∧
      (ofItems items = .ok s ↔ (∀ item ∈ items, Accepted image item) ∧
        ∀ overlay, s.contains overlay = true ↔ ∃ item ∈ items, Adds image item overlay)) ∧
    (∀ items more : List (List Char), ofItems (items ++ more) = do
      let s ← ofItems items
      let t ← ofItems more
      return s.union t) ∧
    (∀ (items others : List (List Char)) (s : OverlaySet), Restated items others →
      (ofItems items = .ok s ↔ ofItems others = .ok s)) ∧
    (∀ (items : List (List Char)) (e : Unknown),
      ofItems items = .error e ↔ ∃ before item after core, items = before ++ item :: after ∧
        (∀ earlier ∈ before, Accepted image earlier) ∧ ¬ Accepted image item ∧
        Text.IsCore item core ∧ e = ⟨String.ofList core⟩) ∧
    (∀ e : Unknown, e.message = "Unknown output option '" ++ e.item ++
      "' (expected one of: stack, shift, dmov, specials, all, none)") ∧
    (∀ text : String, ofText text = ofItems (text.toList.splitOn ',')) ∧
    ∀ s : OverlaySet, ofText s.text = .ok s := by
  refine ⟨fun _ _ => ⟨exists_ofItems_iff himage, ofItems_eq_ok_iff himage⟩, ofItems_append, ?_,
    fun _ _ => ofItems_eq_error_iff himage, Unknown.message_eq, ?_, ofText_text⟩
  · intro items others s h
    exact ofItems_eq_ok_iff_of_spelled h.spelledAmong.1 h.spelledAmong.2
  · intro text
    rw [ofText, Text.pieces_eq_splitOn]

/-- Two names spelled with a long s and with a ligature, a third one in mixed case, and a blank: the
list denotes their union.  With the Kelvin sign, which is its own capital, nothing is spelled. -/
theorem ofItems_beyond_ascii :
    ofItems ["\u017ftack".toList, " sHiFt\u3000".toList, "\ufb06ack".toList, "\u00a0".toList] =
        .ok ⟨true, true, false, false⟩ ∧
      ofItems ["dmov".toList, " stac\u212a\n".toList] = .error ⟨"stac\u212a"⟩ := by
  have himage := Text.isUppering_upperChar
  obtain ⟨hlists, -, -, herror, -⟩ := lists_denote_unions himage
  have hstack : ("STACK", [.stack]) ∈ meanings := by decide
  have hshift : ("SHIFT", [.shift]) ∈ meanings := by decide
  have hnone : ("", []) ∈ meanings := by decide
  have hspells : ∀ {item : List Char} {name : String}, spelledName item = name →
      Spells Text.upperChar item name := fun hname => ⟨_, Text.isCore_strip _, hname⟩
  have hlong : Spells Text.upperChar "\u017ftack".toList "STACK" := hspells (by decide)
  have hmixed : Spells Text.upperChar " sHiFt\u3000".toList "SHIFT" := hspells (by decide)
  have hligature : Spells Text.upperChar "\ufb06ack".toList "STACK" := hspells (by decide)
  have hblank : Spells Text.upperChar "\u00a0".toList "" := hspells (by decide)
  constructor
  · refine ((hlists _ _).2).mpr ⟨?_, fun overlay => ?_⟩
    · intro item hitem
      simp only [List.mem_cons, List.not_mem_nil, or_false] at hitem
      rcases hitem with rfl | rfl | rfl | rfl
      · exact ⟨_, _, hlong, hstack⟩
      · exact ⟨_, _, hmixed, hshift⟩
      · exact ⟨_, _, hligature, hstack⟩
      · exact ⟨_, _, hblank, hnone⟩
    · simp only [List.exists_mem_cons_iff, hlong.adds_iff himage hstack,
        hmixed.adds_iff himage hshift, hligature.adds_iff himage hstack,
        hblank.adds_iff himage hnone, List.not_mem_nil, false_and, exists_false]
      cases overlay <;> decide
  · refine (herror _ _).mpr ⟨["dmov".toList], _, [], "stac\u212a".toList, rfl, ?_, ?_, ?_, ?_⟩
    · exact List.forall_mem_singleton.mpr ⟨"DMOV", [.dmov], hspells (by decide), by decide⟩
    · rw [accepted_iff himage]
      rintro ⟨members, hname⟩
      have hkelvin : spelledName " stac\u212a\n".toList = "STAC\u212a" := by decide
      rw [hkelvin] at hname
      simp [meanings] at hname
    · exact Text.isCore_iff.mpr (by decide)
    · rw [String.ofList_toList]

end OverlaySet

end WordAtlas
