import WordAtlas.Nested

/-!
# Lists and rows as nested lists

Items in one list (`Nested.ofList`) and items in rows (`Nested.ofRows`) are the nested lists of one
and of two levels.  What is done to the items is done to the list or to each row, and the items from
left to right are those of the list or of the rows end to end.  A list is always regular, and rows
are if they have one length (`Nested.shape_ofList`, `Nested.shape_ofRows`).

For the shape, one step down is enough (`Nested.shapeFrom_groups`): a level that has only lists of
one length adds this length, and the parts of the lists are the next level.
-/

namespace WordAtlas

namespace Nested

variable {α β : Type}

/-- Some items in one list. -/
def ofList (items : List α) : Nested α :=
  .group (items.map .item)

/-- Some items in rows. -/
def ofRows (rows : List (List α)) : Nested α :=
  .group (rows.map ofList)

mutual

/-- What is done to the items decides what becomes of a nested list. -/
theorem map_congr {f g : α → β} : ∀ {nested : Nested α}, (∀ a ∈ nested.leaves, f a = g a) →
    nested.map f = nested.map g
  | .item a, h => congrArg item (h a List.mem_cons_self)
  | .group _, h => congrArg group (mapParts_congr h)

/-- What is done to the items decides what becomes of the parts. -/
theorem mapParts_congr {f g : α → β} : ∀ {parts : List (Nested α)},
    (∀ a ∈ leavesOf parts, f a = g a) → mapParts f parts = mapParts g parts
  | [], _ => rfl
  | _ :: _, h => by
      rw [mapParts, mapParts, map_congr fun a ha => h a (List.mem_append_left _ ha),
        mapParts_congr fun a ha => h a (List.mem_append_right _ ha)]

end

/-- The parts of a nested list are mapped one by one. -/
theorem mapParts_eq_map (f : α → β) (parts : List (Nested α)) :
    mapParts f parts = parts.map (map f) := by
  induction parts with
  | nil => rfl
  | cons part rest ih => rw [mapParts, ih, List.map_cons]

/-- The items of the parts are those of one part after the other. -/
theorem leavesOf_eq_flatMap (parts : List (Nested α)) : leavesOf parts = parts.flatMap leaves := by
  induction parts with
  | nil => rfl
  | cons part rest ih => rw [leavesOf, ih, List.flatMap_cons]

/-- A list is mapped item by item. -/
theorem map_ofList (f : α → β) (items : List α) : (ofList items).map f = ofList (items.map f) := by
  rw [ofList, map, mapParts_eq_map, ofList, List.map_map, List.map_map]
  rfl

/-- Rows are mapped one by one. -/
theorem map_ofRows (f : α → β) (rows : List (List α)) :
    (ofRows rows).map f = ofRows (rows.map (List.map f)) := by
  rw [ofRows, map, mapParts_eq_map, ofRows, List.map_map, List.map_map]
  exact congrArg group (List.map_congr_left fun row _ => map_ofList f row)

/-- The items of a list are its items. -/
theorem leaves_ofList (items : List α) : (ofList items).leaves = items := by
  rw [ofList, leaves, leavesOf_eq_flatMap, List.flatMap_map]
  exact List.flatMap_singleton' items

/-- The items of rows are those of one row after the other. -/
theorem leaves_ofRows (rows : List (List α)) : (ofRows rows).leaves = rows.flatten := by
  rw [ofRows, leaves, leavesOf_eq_flatMap, List.flatMap_map, List.flatten_eq_flatMap]
  exact congrArg (rows.flatMap ·) (funext leaves_ofList)

/-- Items without lists among them have a regular shape of no dimension. -/
theorem shapeFrom_items (limit : Nat) (items : List α) :
    shapeFrom limit (items.map item) = ([], .regular) := by
  have hall : (items.map item).all isItem = true := by simp [isItem]
  cases limit <;> rw [shapeFrom, if_pos hall]

/-- Where there are lists only, all of them can be opened. -/
theorem mapM_parts?_groups (lists : List (List (Nested α))) :
    (lists.map group).mapM parts? = some lists := by
  induction lists with
  | nil => rfl
  | cons parts rest ih => simp [List.mapM_cons, ih, parts?]

/-- Lists of one width have this width, and the level below them is what they hold. -/
theorem nextLevel?_groups {width : Nat} {lists : List (List (Nested α))} (hne : lists ≠ [])
    (hwidth : ∀ parts ∈ lists, parts.length = width) :
    nextLevel? (lists.map group) = some (width, lists.flatten) := by
  obtain ⟨first, rest, rfl⟩ := List.exists_cons_of_ne_nil hne
  have hfirst : first.length = width := hwidth first List.mem_cons_self
  have hsame : ((first :: rest).all fun parts => parts.length == width) = true := by
    rw [List.all_eq_true]
    intro parts hparts
    exact beq_iff_eq.mpr (hwidth parts hparts)
  rw [nextLevel?, mapM_parts?_groups]
  simp only [Option.bind_eq_bind, Option.bind_some, hfirst, hsame, if_true]

/-- Lists of one width add a dimension to the shape of what they hold. -/
theorem shapeFrom_groups (limit : Nat) {width : Nat} {lists : List (List (Nested α))}
    (hne : lists ≠ []) (hwidth : ∀ parts ∈ lists, parts.length = width) :
    shapeFrom (limit + 1) (lists.map group) =
      (width :: (shapeFrom limit lists.flatten).1, (shapeFrom limit lists.flatten).2) := by
  obtain ⟨first, rest, rfl⟩ := List.exists_cons_of_ne_nil hne
  have hitem : ¬ ((first :: rest).map (group (α := α))).all isItem = true := Bool.false_ne_true
  rw [shapeFrom, if_neg hitem]
  simp only [nextLevel?_groups hne hwidth]

/-- A list has one level. -/
theorem shape_ofList (limit : Nat) (items : List α) :
    (ofList items).shape (limit + 1) = ([items.length], .regular) := by
  have hgroups := shapeFrom_groups limit (List.cons_ne_nil (items.map item) [])
    (List.forall_mem_singleton.mpr rfl)
  rw [List.flatten_singleton, shapeFrom_items, List.length_map] at hgroups
  exact hgroups

/-- Rows of one length have two levels, or one if there are none of them. -/
theorem shape_ofRows (limit : Nat) {width : Nat} {rows : List (List α)}
    (hwidth : ∀ row ∈ rows, row.length = width) :
    (ofRows rows).shape (limit + 2) =
      (if rows.isEmpty then [0] else [rows.length, width], .regular) := by
  cases rows with
  | nil => exact shape_ofList (limit + 1) []
  | cons row rest =>
      have hgroups := shapeFrom_groups (limit + 1)
        (List.cons_ne_nil ((row :: rest).map ofList) []) (List.forall_mem_singleton.mpr rfl)
      have hlists : (row :: rest).map ofList =
          ((row :: rest).map (List.map item)).map (group (α := α)) := by
        rw [List.map_map]
        rfl
      have hlengths : ∀ parts ∈ (row :: rest).map (List.map (item (α := α))),
          parts.length = width := by
        intro parts hparts
        obtain ⟨items, hitems, rfl⟩ := List.mem_map.mp hparts
        rw [List.length_map, hwidth items hitems]
      have hne : (row :: rest).map (List.map (item (α := α))) ≠ [] := List.cons_ne_nil _ _
      have hrows := shapeFrom_groups limit hne hlengths
      rw [← List.map_flatten, shapeFrom_items] at hrows
      rw [List.flatten_singleton, hlists, hrows, List.length_map, List.length_map] at hgroups
      rw [shape, ofRows, hlists]
      exact hgroups

end Nested

end WordAtlas
