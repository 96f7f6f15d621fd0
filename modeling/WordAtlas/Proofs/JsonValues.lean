import Mathlib.Data.String.Basic
import Mathlib.Data.List.Forall2
import WordAtlas.Json

/-!
# Values and the order of their fields

A record means the same in whatever order its fields stand: `Rearranged` relates values that differ
in that order alone, at any depth.  Sorting the fields of every record rearranges a value
(`rearranged_sortFields`), and it puts names that are distinct into strictly increasing order, code
point by code point (`EveryRecord.ascending`).  `map` carries a value over to numbers of another
type, and nothing is lost if the numbers can be carried back (`map_leftInverse`).
-/

namespace WordAtlas

namespace Json

variable {ν μ : Type}

/-! ## Induction over values -/

/-- What holds of a list if it holds of its items, and of a record if it holds of the values of its
fields, holds of every value. -/
@[elab_as_elim]
theorem induct {P : Json ν → Prop} (null : P .null) (bool : ∀ b, P (.bool b))
    (number : ∀ n, P (.number n)) (string : ∀ s, P (.string s))
    (array : ∀ items, (∀ item ∈ items, P item) → P (.array items))
    (object : ∀ fields, (∀ field ∈ fields, P field.2) → P (.object fields)) (v : Json ν) : P v :=
  @Json.rec ν P (fun items => ∀ item ∈ items, P item) (fun fields => ∀ field ∈ fields, P field.2)
    (fun field => P field.2) null bool number string array object nofun
    (fun _ _ item rest => List.forall_mem_cons.mpr ⟨item, rest⟩) nofun
    (fun _ _ field rest => List.forall_mem_cons.mpr ⟨field, rest⟩) (fun _ _ value => value) v

/-! ## Values up to the order of fields -/

/-- Values that differ in the order of fields alone. -/
inductive Rearranged : Json ν → Json ν → Prop
  | refl (v : Json ν) : Rearranged v v
  | trans {u v w : Json ν} (huv : Rearranged u v) (hvw : Rearranged v w) : Rearranged u w
  | reordered {fields others : List (String × Json ν)} (h : fields.Perm others) :
      Rearranged (.object fields) (.object others)
  | item {before after : List (Json ν)} {v w : Json ν} (h : Rearranged v w) :
      Rearranged (.array (before ++ v :: after)) (.array (before ++ w :: after))
  | field {before after : List (String × Json ν)} {name : String} {v w : Json ν}
      (h : Rearranged v w) :
      Rearranged (.object (before ++ (name, v) :: after)) (.object (before ++ (name, w) :: after))

/-- Fields that were put into another order can be put back. -/
theorem Rearranged.symm {v w : Json ν} (h : Rearranged v w) : Rearranged w v := by
  induction h with
  | refl v => exact .refl v
  | trans _ _ huv hvw => exact .trans hvw huv
  | reordered h => exact .reordered h.symm
  | item _ ih => exact .item ih
  | field _ ih => exact .field ih

/-- Items that are rearranged one by one make a rearranged list. -/
theorem Rearranged.items {f : Json ν → Json ν} {items : List (Json ν)}
    (h : ∀ item ∈ items, Rearranged item (f item)) (before : List (Json ν)) :
    Rearranged (.array (before ++ items)) (.array (before ++ items.map f)) := by
  induction items generalizing before with
  | nil => exact .refl _
  | cons v rest ih =>
      obtain ⟨hv, hrest⟩ := List.forall_mem_cons.mp h
      have hmore := ih hrest (before ++ [f v])
      rw [List.append_assoc, List.append_assoc] at hmore
      exact .trans (.item hv) hmore

/-- Fields whose values are rearranged one by one make a rearranged record. -/
theorem Rearranged.fields {f : Json ν → Json ν} {fields : List (String × Json ν)}
    (h : ∀ field ∈ fields, Rearranged field.2 (f field.2)) (before : List (String × Json ν)) :
    Rearranged (.object (before ++ fields))
      (.object (before ++ fields.map fun field => (field.1, f field.2))) := by
  induction fields generalizing before with
  | nil => exact .refl _
  | cons field rest ih =>
      obtain ⟨hvalue, hrest⟩ := List.forall_mem_cons.mp h
      have hmore := ih hrest (before ++ [(field.1, f field.2)])
      rw [List.append_assoc, List.append_assoc] at hmore
      exact .trans (.field hvalue) hmore

/-! ## Sorting -/

/-- The items of a list are sorted one by one. -/
theorem sortItems_eq_map (items : List (Json ν)) : sortItems items = items.map sortFields := by
  induction items with
  | nil => rfl
  | cons v rest ih => rw [sortItems, ih, List.map_cons]

/-- To insert a field is to add it somewhere. -/
theorem insertField_perm (name : String) (v : Json ν) (fields : List (String × Json ν)) :
    (insertField name v fields).Perm ((name, v) :: fields) := by
  induction fields with
  | nil => exact .refl _
  | cons field rest ih =>
      rw [insertField]
      split
      · exact .refl _
      · exact (ih.cons field).trans (.swap _ _ _)

/-- The fields in order are the same fields, each with its own value in order. -/
theorem sortedFields_perm (fields : List (String × Json ν)) :
    (sortedFields fields).Perm (fields.map fun field => (field.1, field.2.sortFields)) := by
  induction fields with
  | nil => exact .refl _
  | cons field rest ih => exact (insertField_perm _ _ _).trans (ih.cons _)

/-- A value with its fields sorted is a rearrangement of the value. -/
theorem rearranged_sortFields (v : Json ν) : Rearranged v v.sortFields := by
  induction v using Json.induct with
  | null => exact .refl _
  | bool b => exact .refl _
  | number n => exact .refl _
  | string s => exact .refl _
  | array items ih =>
      rw [sortFields, sortItems_eq_map]
      exact Rearranged.items ih []
  | object fields ih =>
      rw [sortFields]
      exact .trans (Rearranged.fields ih []) (.reordered (sortedFields_perm fields).symm)

/-- A property of the fields of a record holds of every record in a value. -/
inductive EveryRecord (p : List String → Prop) : Json ν → Prop
  | null : EveryRecord p .null
  | bool (b : Bool) : EveryRecord p (.bool b)
  | number (n : ν) : EveryRecord p (.number n)
  | string (s : String) : EveryRecord p (.string s)
  | array {items : List (Json ν)} (h : ∀ item ∈ items, EveryRecord p item) :
      EveryRecord p (.array items)
  | object {fields : List (String × Json ν)} (hnames : p (fields.map Prod.fst))
      (h : ∀ field ∈ fields, EveryRecord p field.2) : EveryRecord p (.object fields)

/-- The code points of a text. -/
def codePoints (s : String) : List Nat :=
  s.toList.map Char.toNat

/-- Names in strictly increasing order, code point by code point. -/
def Ascending (names : List String) : Prop :=
  names.Pairwise fun name other => codePoints name < codePoints other

/-- Texts in order have their code points in order. -/
theorem codePoints_lt {s t : String} (h : s < t) : codePoints s < codePoints t :=
  List.map_lt (fun _ _ hlt => hlt) (String.lt_iff_toList_lt.mp h)

/-- To insert a field keeps the names in order. -/
theorem pairwise_insertField {name : String} {v : Json ν} {fields : List (String × Json ν)}
    (h : fields.Pairwise fun field other => field.1 ≤ other.1) :
    (insertField name v fields).Pairwise fun field other => field.1 ≤ other.1 := by
  induction fields with
  | nil => exact List.pairwise_singleton _ _
  | cons field rest ih =>
      obtain ⟨hfield, hrest⟩ := List.pairwise_cons.mp h
      rw [insertField]
      split
      · rename_i hle
        refine List.pairwise_cons.mpr ⟨List.forall_mem_cons.mpr ⟨hle, ?_⟩, h⟩
        exact fun other hother => le_trans hle (hfield other hother)
      · rename_i hgt
        refine List.pairwise_cons.mpr ⟨fun other hother => ?_, ih hrest⟩
        rcases List.mem_cons.mp ((insertField_perm name v rest).subset hother) with rfl | hother
        · exact le_of_not_ge hgt
        · exact hfield other hother

/-- Sorted fields have their names in order. -/
theorem pairwise_sortedFields (fields : List (String × Json ν)) :
    (sortedFields fields).Pairwise fun field other => field.1 ≤ other.1 := by
  induction fields with
  | nil => exact .nil
  | cons field rest ih => exact pairwise_insertField ih

/-- Distinct names are in strictly increasing order once the fields are in order. -/
theorem ascending_sortedFields {fields : List (String × Json ν)}
    (h : (fields.map Prod.fst).Nodup) : Ascending ((sortedFields fields).map Prod.fst) := by
  have hnames : ((sortedFields fields).map Prod.fst).Perm (fields.map Prod.fst) := by
    refine ((sortedFields_perm fields).map Prod.fst).trans ?_
    rw [List.map_map]
    exact .refl _
  have hdistinct : ((sortedFields fields).map Prod.fst).Nodup := hnames.nodup_iff.mpr h
  have hle : ((sortedFields fields).map Prod.fst).Pairwise (· ≤ ·) :=
    List.pairwise_map.mpr (pairwise_sortedFields fields)
  exact hle.imp₂ (fun _ _ hle hne => codePoints_lt (lt_of_le_of_ne hle hne)) hdistinct

/-- The names of every record are in order once the value is. -/
theorem EveryRecord.ascending {v : Json ν} (h : EveryRecord List.Nodup v) :
    EveryRecord Ascending v.sortFields := by
  induction h with
  | null => exact .null
  | bool b => exact .bool b
  | number n => exact .number n
  | string s => exact .string s
  | array _ ih =>
      rw [sortFields, sortItems_eq_map]
      exact .array (List.forall_mem_map.mpr ih)
  | @object fields hnames _ ih =>
      rw [sortFields]
      refine .object (ascending_sortedFields hnames) fun field hfield => ?_
      obtain ⟨held, hheld, rfl⟩ := List.mem_map.mp ((sortedFields_perm fields).subset hfield)
      exact ih held hheld

/-! ## Values with other numbers -/

mutual

/-- The value with each of its numbers replaced. -/
def map (f : ν → μ) : Json ν → Json μ
  | null => null
  | bool b => bool b
  | number n => number (f n)
  | string s => string s
  | array items => array (mapItems f items)
  | object fields => object (mapFields f fields)

/-- The items with each number in them replaced. -/
def mapItems (f : ν → μ) : List (Json ν) → List (Json μ)
  | [] => []
  | item :: rest => map f item :: mapItems f rest

/-- The fields with each number in their values replaced. -/
def mapFields (f : ν → μ) : List (String × Json ν) → List (String × Json μ)
  | [] => []
  | (name, value) :: rest => (name, map f value) :: mapFields f rest

end

/-- The items of a list are mapped one by one. -/
theorem mapItems_eq_map (f : ν → μ) (items : List (Json ν)) :
    mapItems f items = items.map (map f) := by
  induction items with
  | nil => rfl
  | cons v rest ih => rw [mapItems, ih, List.map_cons]

/-- The values of fields are mapped one by one, under the same names. -/
theorem mapFields_eq_map (f : ν → μ) (fields : List (String × Json ν)) :
    mapFields f fields = fields.map fun field => (field.1, map f field.2) := by
  induction fields with
  | nil => rfl
  | cons field rest ih => rw [mapFields, ih, List.map_cons]

/-- Numbers that can be replaced back again can be so within values. -/
theorem map_leftInverse {f : ν → μ} {g : μ → ν} (h : Function.LeftInverse g f) :
    Function.LeftInverse (map g) (map f) := by
  intro v
  induction v using Json.induct with
  | null => rfl
  | bool b => rfl
  | number n => exact congrArg number (h n)
  | string s => rfl
  | array items ih =>
      rw [map, map, mapItems_eq_map, mapItems_eq_map, List.map_map]
      exact congrArg array ((List.map_congr_left ih).trans (List.map_id items))
  | object fields ih =>
      rw [map, map, mapFields_eq_map, mapFields_eq_map, List.map_map]
      refine congrArg object
        ((List.map_congr_left fun field hfield => ?_).trans (List.map_id fields))
      exact Prod.ext rfl (ih field hfield)

end Json

end WordAtlas
