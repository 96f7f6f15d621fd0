import WordAtlas.Table.Build

/-!
# Painted tables

A build paints one definition after the other, and it checks before each of them that there is a
position left.  So whether it comes to its end is decided by the number of definitions alone:
painting fails exactly when there are more than 65536 (`Canvas.expand_eq`).  If it does not fail, a
slot holds the position of the last definition whose range holds its word
(`Canvas.slot_foldl_painted`).

From this follows all that a build does with accepted catalogs (`build_of_accepted`).  What it logs
can be told from its result: each layer that was painted before positions ran out
(`buildEvents_eq`).
-/

namespace WordAtlas.Table

/-! ## Parts of a build -/

namespace Course

variable {α β : Type}

/-- A part that ends well goes on with what it gave. -/
theorem bind_of_ok {course : Course α} {a : α} (h : course.result = .ok a) (next : α → Course β) :
    course >>= next = ⟨course.events ++ (next a).events, (next a).result⟩ := by
  obtain ⟨events, result⟩ := course
  obtain rfl : result = .ok a := h
  rfl

/-- A part that fails is the end. -/
theorem bind_of_error {course : Course α} {e : BuildError} (h : course.result = .error e)
    (next : α → Course β) : course >>= next = ⟨course.events, .error e⟩ := by
  obtain ⟨events, result⟩ := course
  obtain rfl : result = .error e := h
  rfl

/-- What ends well and logs nothing hands on what it gave. -/
theorem bind_lift_ok {result : Except BuildError α} {a : α} (h : result = .ok a)
    (next : α → Course β) : (liftM result : Course α) >>= next = next a := by
  subst h
  rfl

/-- What fails and logs nothing is the end. -/
theorem bind_lift_error {result : Except BuildError α} {e : BuildError} (h : result = .error e)
    (next : α → Course β) : (liftM result : Course α) >>= next = ⟨[], .error e⟩ := by
  subst h
  rfl

end Course

/-! ## Painting definitions -/

/-- The position of the last definition whose range holds a word, the first of the definitions being
at `position`. -/
def lastHolder? (w : Nat) (position : Nat) : List Definition → Option Nat
  | [] => none
  | d :: rest =>
      match lastHolder? w (position + 1) rest with
      | some later => some later
      | none => if d.first ≤ w ∧ w < d.stop then some position else none

namespace Canvas

variable {canvas : Canvas}

/-- Painting adds the definitions behind those before them. -/
theorem definitions_foldl_painted (canvas : Canvas) (definitions : List Definition) :
    (definitions.foldl painted canvas).definitions.toList =
      canvas.definitions.toList ++ definitions := by
  induction definitions generalizing canvas with
  | nil => exact (List.append_nil _).symm
  | cons d rest ih =>
      rw [List.foldl_cons, ih, painted, Array.toList_push, List.append_assoc]
      rfl

theorem size_foldl_painted (canvas : Canvas) (definitions : List Definition) :
    (definitions.foldl painted canvas).definitions.size =
      canvas.definitions.size + definitions.length := by
  rw [← Array.length_toList, definitions_foldl_painted, List.length_append, Array.length_toList]

/-- **Painting fails for want of a position.**  Definitions are painted one after the other as long
as there is a position of sixteen bits for each, and if there is not, painting fails. -/
theorem expand_eq (hsize : canvas.definitions.size ≤ 65536) (definitions : List Definition) :
    canvas.expand definitions =
      if canvas.definitions.size + definitions.length ≤ 65536 then
        .ok (definitions.foldl painted canvas)
      else .error .tooManyDefinitions := by
  induction definitions generalizing canvas with
  | nil =>
      rw [List.length_nil, Nat.add_zero, if_pos hsize]
      rfl
  | cons d rest ih =>
      rw [expand, paint, List.length_cons]
      by_cases hlt : canvas.definitions.size < 65536
      · have hnext : (canvas.painted d).definitions.size = canvas.definitions.size + 1 :=
          Array.size_push _
        have hrest := @ih (canvas.painted d) (by omega)
        rw [hnext] at hrest
        rw [if_pos hlt, ← Nat.add_assoc, Nat.add_right_comm]
        exact hrest
      · -- the store of position 65536 fails
        rw [if_neg hlt, if_neg (by omega)]
        rfl

/-- **Later definitions win.**  After painting, a slot holds the position of the last definition
whose range holds its word, and what it held before if there is none. -/
theorem slot_foldl_painted (canvas : Canvas) (definitions : List Definition) (w : Nat)
    (hw : w < 65536) :
    (definitions.foldl painted canvas).slots[w] =
      (lastHolder? w canvas.definitions.size definitions).getD canvas.slots[w] := by
  induction definitions generalizing canvas with
  | nil => rfl
  | cons d rest ih =>
      rw [List.foldl_cons, ih, lastHolder?]
      have hsize : (canvas.painted d).definitions.size = canvas.definitions.size + 1 :=
        Array.size_push _
      rw [hsize]
      cases hlater : lastHolder? w (canvas.definitions.size + 1) rest with
      | some later => rfl
      | none =>
          have hstop : d.first ≤ d.stop := by
            unfold Definition.first Definition.stop
            omega
          rw [Option.getD_none, painted, getElem_fill]
          by_cases hrange : d.first ≤ w ∧ w < d.stop
          · rw [if_pos (by omega), if_pos hrange]
            rfl
          · rw [if_neg (by omega), if_neg hrange]
            rfl

/-- Overlays are painted one after the other, each with its event, until positions run out. -/
theorem overlay_eq (hsize : canvas.definitions.size ≤ 65536) (entries : List (Overlay × Catalog)) :
    canvas.overlay entries =
      ⟨overlayEvents canvas.definitions.size entries,
        if canvas.definitions.size + (entries.flatMap (·.2)).length ≤ 65536 then
          .ok ((entries.flatMap (·.2)).foldl painted canvas)
        else .error .tooManyDefinitions⟩ := by
  induction entries generalizing canvas with
  | nil =>
      rw [List.flatMap_nil, List.length_nil, Nat.add_zero, if_pos hsize]
      rfl
  | cons entry rest ih =>
      obtain ⟨overlay, catalog⟩ := entry
      have hexpand := expand_eq hsize catalog
      rw [Canvas.overlay, overlayEvents, List.flatMap_cons, List.length_append]
      dsimp only
      by_cases hfits : canvas.definitions.size + catalog.length ≤ 65536
      · rw [if_pos hfits] at hexpand
        have hsize' := size_foldl_painted canvas catalog
        have hrest := @ih (catalog.foldl painted canvas) (by omega)
        rw [hsize', Nat.add_assoc, ← List.foldl_append] at hrest
        rw [Course.bind_lift_ok hexpand, Course.bind_of_ok rfl, if_pos hfits, hrest]
        rfl
      · rw [if_neg hfits] at hexpand
        rw [Course.bind_lift_error hexpand, if_neg hfits, if_neg (by omega)]

end Canvas

/-! ## Building -/

/-- The table in which each word belongs to the last definition whose range holds it, and to the
first definition if there is none. -/
def ofDefinitions (options : OverlaySet) (definitions : List Definition)
    (nonempty : 0 < definitions.length) : Table :=
  (definitions.foldl Canvas.painted .blank).toTable options (by
    rw [Canvas.size_foldl_painted]
    omega)

section OfDefinitions

variable {options : OverlaySet} {definitions : List Definition} {nonempty : 0 < definitions.length}

/-- Painting keeps the definitions in their order. -/
theorem definitions_ofDefinitions :
    (ofDefinitions options definitions nonempty).definitions.toList = definitions :=
  Canvas.definitions_foldl_painted .blank definitions

/-- A word is at the position of the last definition whose range holds it, or at position 0. -/
theorem index_ofDefinitions (w : Word) :
    (ofDefinitions options definitions nonempty).index w =
      (lastHolder? w.val 0 definitions).getD 0 := by
  have hblank : Canvas.blank.slots[w.val] = 0 := Vector.getElem_replicate w.isLt
  have hslot := Canvas.slot_foldl_painted .blank definitions w.val w.isLt
  rw [hblank] at hslot
  exact hslot

end OfDefinitions

/-- The catch-all of accepted catalogs is one definition, so some definition is in force. -/
theorem applied_length_pos {catalogs : Catalogs} (options : OverlaySet)
    (h : catalogs.validate = .ok ()) : 0 < (catalogs.applied options).length := by
  rw [Catalogs.validate_eq_ok_iff] at h
  simp only [Catalogs.faults, List.append_eq_nil_iff] at h
  have hshape := h.1.1.1
  unfold Catalogs.isCatchAll at hshape
  unfold Catalogs.applied
  split at hshape
  · rename_i heq
    simp only [heq, List.length_append, List.length_cons]
    omega
  · simp at hshape

variable {catalogs : Catalogs} {options : OverlaySet}

/-- Refused catalogs end the build, and every fault is logged. -/
theorem course_of_rejected {rejection : Catalogs.Rejection}
    (h : catalogs.validate = .error rejection) :
    course catalogs options = ⟨rejection.all.map .refused, .error (.rejected rejection)⟩ := by
  have hexamine : examine catalogs =
      ⟨rejection.all.map .refused, .error (.rejected rejection)⟩ := by
    rw [examine, h]
    exact congrArg (Course.mk · _) (List.append_nil _)
  rw [course, hexamine, Course.bind_of_error rfl]

/-- The catch-all and the base are painted first, if there are positions for them. -/
theorem course_of_examined (h : catalogs.validate = .ok ()) :
    course catalogs options =
      if catalogs.catchAll.length + catalogs.base.length ≤ 65536 then do
        Course.log [.painted catalogs.base.length]
        let canvas ← ((catalogs.catchAll ++ catalogs.base).foldl Canvas.painted .blank).overlay
          (catalogs.enabled options)
        let table ← canvas.finish options
        Course.log [.finished options table.unknownCount]
        return table
      else ⟨[], .error .tooManyDefinitions⟩ := by
  have hexamine : examine catalogs = pure () := by
    rw [examine, h]
  have hblank : Canvas.blank.definitions.size = 0 := rfl
  have hcatchAll := @Canvas.expand_eq .blank (Nat.zero_le _) catalogs.catchAll
  rw [hblank, Nat.zero_add] at hcatchAll
  rw [course, hexamine, Course.bind_of_ok rfl]
  by_cases hlow : catalogs.catchAll.length ≤ 65536
  · rw [if_pos hlow] at hcatchAll
    have hsize := Canvas.size_foldl_painted .blank catalogs.catchAll
    rw [hblank, Nat.zero_add] at hsize
    have hbase := Canvas.expand_eq (hsize ▸ hlow) catalogs.base
    rw [hsize] at hbase
    rw [Course.bind_lift_ok hcatchAll]
    by_cases hboth : catalogs.catchAll.length + catalogs.base.length ≤ 65536
    · rw [if_pos hboth, ← List.foldl_append] at hbase
      rw [Course.bind_lift_ok hbase, if_pos hboth]
      rfl
    · rw [if_neg hboth] at hbase
      rw [Course.bind_lift_error hbase, if_neg hboth]
      rfl
  · rw [if_neg hlow] at hcatchAll
    rw [Course.bind_lift_error hcatchAll, if_neg (by omega)]
    rfl

/-- **Accepted catalogs are painted layer by layer.**  The build ends with the table, or without one
when positions run out. -/
theorem course_of_accepted (h : catalogs.validate = .ok ()) :
    course catalogs options =
      if (catalogs.applied options).length ≤ 65536 then
        let table := ofDefinitions options (catalogs.applied options) (applied_length_pos options h)
        ⟨layerEvents catalogs options ++ [.finished options table.unknownCount], .ok table⟩
      else ⟨layerEvents catalogs options, .error .tooManyDefinitions⟩ := by
  have happlied : (catalogs.applied options).length = catalogs.catchAll.length +
      catalogs.base.length + ((catalogs.enabled options).flatMap (·.2)).length := by
    rw [Catalogs.applied, List.length_append, List.length_append]
  rw [course_of_examined h]
  by_cases hlow : catalogs.catchAll.length + catalogs.base.length ≤ 65536
  · have hlayers : layerEvents catalogs options = .painted catalogs.base.length ::
        overlayEvents (catalogs.catchAll.length + catalogs.base.length)
          (catalogs.enabled options) := if_pos hlow
    have hsize := Canvas.size_foldl_painted .blank (catalogs.catchAll ++ catalogs.base)
    have hblank : Canvas.blank.definitions.size = 0 := rfl
    rw [hblank, Nat.zero_add, List.length_append] at hsize
    have hoverlay := Canvas.overlay_eq (hsize ▸ hlow) (catalogs.enabled options)
    rw [hsize, ← happlied, ← List.foldl_append] at hoverlay
    rw [if_pos hlow, hoverlay, Course.bind_of_ok rfl, hlayers]
    by_cases hfits : (catalogs.applied options).length ≤ 65536
    · have hpos := applied_length_pos options h
      have hfinish : ((catalogs.applied options).foldl Canvas.painted .blank).finish options =
          .ok (ofDefinitions options (catalogs.applied options) hpos) :=
        dif_pos (by rw [Canvas.size_foldl_painted]; omega)
      rw [if_pos hfits, if_pos hfits, Course.bind_of_ok rfl, ← Catalogs.applied,
        Course.bind_lift_ok hfinish]
      rfl
    · rw [if_neg hfits, if_neg hfits, Course.bind_of_error rfl]
      rfl
  · have hlayers : layerEvents catalogs options = [] := if_neg hlow
    rw [if_neg hlow, if_neg (by omega), hlayers]

/-- Refused catalogs give no table. -/
theorem build_of_rejected {rejection : Catalogs.Rejection}
    (h : catalogs.validate = .error rejection) :
    build catalogs options = .error (.rejected rejection) :=
  congrArg Course.result (course_of_rejected h)

/-- Accepted catalogs give a table unless positions run out. -/
theorem build_of_accepted (h : catalogs.validate = .ok ()) :
    build catalogs options =
      if (catalogs.applied options).length ≤ 65536 then
        .ok (ofDefinitions options (catalogs.applied options) (applied_length_pos options h))
      else .error .tooManyDefinitions := by
  rw [build, course_of_accepted h]
  split <;> rfl

/-- **The log tells no more than the result.**  What is logged while a table is built can be told
from how the build ends. -/
theorem buildEvents_eq (catalogs : Catalogs) (options : OverlaySet) :
    buildEvents catalogs options = eventsOf catalogs options (build catalogs options) := by
  unfold buildEvents build
  cases h : catalogs.validate with
  | error rejection =>
      rw [course_of_rejected h]
      rfl
  | ok accepted =>
      rw [course_of_accepted h]
      split <;> rfl

/-- Only accepted catalogs give a table. -/
theorem accepted_of_build {table : Table} (h : build catalogs options = .ok table) :
    catalogs.validate = .ok () := by
  cases hvalidate : catalogs.validate with
  | ok accepted => rfl
  | error rejection =>
      rw [build_of_rejected hvalidate] at h
      cases h

/-- More definitions than positions give no table. -/
theorem fits_of_build {table : Table} (h : build catalogs options = .ok table) :
    (catalogs.applied options).length ≤ 65536 := by
  rw [build_of_accepted (accepted_of_build h)] at h
  split at h
  · assumption
  · cases h

/-- A table that was built is one for the overlays in force. -/
theorem options_of_build {table : Table} (h : build catalogs options = .ok table) :
    table.options = options := by
  have hbuild := h
  rw [build_of_accepted (accepted_of_build h), if_pos (fits_of_build h)] at hbuild
  exact (congrArg Table.options (Except.ok.inj hbuild)).symm

end WordAtlas.Table
