/-!
# Overlays

An *overlay* renames some instructions of the base catalog for the reader's convenience.  There are
four of them, and they are applied in one fixed order, so a later one wins where two rename the
same words.  An `OverlaySet` says which of them are on; as a number it is the sum of 1, 2, 4 and 8
for its members in that order.
-/

namespace WordAtlas

/-- A set of renamings that can be layered over the base catalog. -/
inductive Overlay
  | stack
  | shift
  | dmov
  | specials
deriving DecidableEq, Repr

namespace Overlay

/-- All overlays, in the order in which they are applied. -/
def all : List Overlay :=
  [stack, shift, dmov, specials]

/-- The name of an overlay in small letters, as users write it. -/
def text : Overlay → String
  | stack => "stack"
  | shift => "shift"
  | dmov => "dmov"
  | specials => "specials"

/-- The name of an overlay in capitals, as log lines and variables have it. -/
def name : Overlay → String
  | stack => "STACK"
  | shift => "SHIFT"
  | dmov => "DMOV"
  | specials => "SPECIALS"

/-- What an overlay adds to the number of a set. -/
def weight : Overlay → Nat
  | stack => 1
  | shift => 2
  | dmov => 4
  | specials => 8

/-- The overlay with the given name in capitals. -/
def ofName? (s : String) : Option Overlay :=
  all.find? fun overlay => overlay.name == s

end Overlay

/-- Which overlays are on. -/
structure OverlaySet where
  stack : Bool := false
  shift : Bool := false
  dmov : Bool := false
  specials : Bool := false
deriving DecidableEq, Repr

namespace OverlaySet

/-- No overlay is on. -/
def empty : OverlaySet := {}

/-- All overlays are on. -/
def full : OverlaySet := ⟨true, true, true, true⟩

/-- Whether an overlay is on. -/
def contains (s : OverlaySet) : Overlay → Bool
  | .stack => s.stack
  | .shift => s.shift
  | .dmov => s.dmov
  | .specials => s.specials

/-- The set that holds one overlay. -/
def single : Overlay → OverlaySet
  | .stack => { stack := true }
  | .shift => { shift := true }
  | .dmov => { dmov := true }
  | .specials => { specials := true }

/-- The overlays that are on in either set. -/
def union (s t : OverlaySet) : OverlaySet :=
  ⟨s.stack || t.stack, s.shift || t.shift, s.dmov || t.dmov, s.specials || t.specials⟩

/-- The overlays of a set, in the order in which they are applied. -/
def toList (s : OverlaySet) : List Overlay :=
  Overlay.all.filter s.contains

/-- The number of a set. -/
def toNat (s : OverlaySet) : Nat :=
  s.toList.foldl (fun n overlay => n + overlay.weight) 0

/-- The set with the given number, if it is below 16. -/
def ofNat? (n : Nat) : Option OverlaySet :=
  if n < 16 then some ⟨n.testBit 0, n.testBit 1, n.testBit 2, n.testBit 3⟩ else none

/-- The text of a set: its overlays with commas between, or `none`. -/
def text (s : OverlaySet) : String :=
  if s.toList.isEmpty then "none" else ",".intercalate (s.toList.map Overlay.text)

/-- How a report refers to a set by members and number. -/
def describe (s : OverlaySet) : String :=
  if s.toList.isEmpty then "<OutputOption: 0>"
  else "<OutputOption." ++ "|".intercalate (s.toList.map Overlay.name) ++ s!": {s.toNat}>"

/-- The label under which the faults of an overlay catalog are reported. -/
def label (s : OverlaySet) : String :=
  if s.toList.isEmpty then s.describe else "|".intercalate (s.toList.map Overlay.text)

/-- The overlay of a set that holds exactly one. -/
def only? (s : OverlaySet) : Option Overlay :=
  Overlay.all.find? fun overlay => single overlay == s

@[simp] theorem contains_union (s t : OverlaySet) (overlay : Overlay) :
    (s.union t).contains overlay = (s.contains overlay || t.contains overlay) := by
  cases overlay <;> rfl

@[simp] theorem contains_single (overlay other : Overlay) :
    (single overlay).contains other = decide (overlay = other) := by
  cases overlay <;> cases other <;> rfl

@[simp] theorem contains_empty (overlay : Overlay) : empty.contains overlay = false := by
  cases overlay <;> rfl

@[simp] theorem contains_full (overlay : Overlay) : full.contains overlay = true := by
  cases overlay <;> rfl

/-- A set is known by its members. -/
theorem ext_contains {s t : OverlaySet} (h : ∀ overlay, s.contains overlay = t.contains overlay) :
    s = t := by
  cases s
  cases t
  have h1 := h .stack
  have h2 := h .shift
  have h3 := h .dmov
  have h4 := h .specials
  simp_all [contains]

/-- The members of a set are exactly the overlays that are on. -/
@[simp] theorem mem_toList {s : OverlaySet} {overlay : Overlay} :
    overlay ∈ s.toList ↔ s.contains overlay = true := by
  cases overlay <;> simp [toList, Overlay.all, contains]

/-- Sets and the numbers below 16 correspond. -/
theorem ofNat?_toNat (s : OverlaySet) : ofNat? s.toNat = some s := by
  obtain ⟨a, b, c, d⟩ := s
  cases a <;> cases b <;> cases c <;> cases d <;> decide

end OverlaySet

end WordAtlas
