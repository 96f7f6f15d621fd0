import WordAtlas.Catalog.Fault
import WordAtlas.Table

/-!
# Building a table

A table is built in one pass from catalogs that were accepted: every definition in force, in order,
paints its range of words with its position, so a later one paints over an earlier one.  A slot has
sixteen bits, so to paint with position 65536 fails, and the build ends there.

The building is logged as it goes on: the faults of refused catalogs, or the sizes of the layers as
they are painted and then the finished table.  A `Course` is a part of a build, with what it logs
and how it ends, and what comes after a failure logs nothing.
-/

namespace WordAtlas

namespace Table

/-- Why no table was built. -/
inductive BuildError
  /-- The catalogs were refused. -/
  | rejected (rejection : Catalogs.Rejection)
  /-- There are more definitions than positions of sixteen bits. -/
  | tooManyDefinitions
deriving DecidableEq

/-- The message of a build that failed. -/
def BuildError.message : BuildError → String
  | .rejected rejection => rejection.message
  | .tooManyDefinitions => "definition position 65536 does not fit in sixteen bits"

/-! ## Events -/

/-- How important an event is. -/
inductive Level
  | debug
  | error
deriving DecidableEq, Repr

/-- The name of a level in the log. -/
def Level.name : Level → String
  | debug => "DEBUG"
  | error => "ERROR"

/-- What happens in the course of a build. -/
inductive Event
  /-- A fault of the catalogs was found. -/
  | refused (fault : Catalogs.Fault)
  /-- The catch-all and base catalogs were painted. -/
  | painted (baseSize : Nat)
  /-- The catalog of an overlay was painted. -/
  | overlaid (overlay : Overlay) (size : Nat)
  /-- The table is finished. -/
  | finished (options : OverlaySet) (unknown : Nat)
deriving DecidableEq

/-- The importance of an event. -/
def Event.level : Event → Level
  | .refused _ => .error
  | _ => .debug

/-- The text of an event in the log. -/
def Event.message : Event → String
  | .refused fault => "Rejected catalog: " ++ fault.message
  | .painted baseSize => s!"Expanded {baseSize} base definitions"
  | .overlaid overlay size => s!"Applied {overlay.name} overlay ({size} definitions)"
  | .finished options unknown =>
      s!"Built decode table for options={options.text} ({unknown} unknown words)"

/-- A part of a build: the events that it logs, in order, and how it ends. -/
structure Course (α : Type) where
  events : List Event
  result : Except BuildError α

namespace Course

variable {α β : Type}

/-- Goes on with what a part of a build gives.  If it fails, there is no further part. -/
def bind (course : Course α) (next : α → Course β) : Course β :=
  match course with
  | ⟨events, .error e⟩ => ⟨events, .error e⟩
  | ⟨events, .ok a⟩ =>
      let rest := next a
      ⟨events ++ rest.events, rest.result⟩

instance : Monad Course where
  pure a := ⟨[], .ok a⟩
  bind := bind

/-- What logs nothing is a part of a build by how it ends. -/
instance : MonadLift (Except BuildError) Course where
  monadLift result := ⟨[], result⟩

/-- Logs some events. -/
def log (events : List Event) : Course Unit :=
  ⟨events, .ok ()⟩

end Course

/-! ## Painting -/

/-- Writes a value into `count` slots, from the slot `first` on. -/
def fill {α : Type} (slots : Vector α 65536) (value : α) (first : Nat) : Nat → Vector α 65536
  | 0 => slots
  | count + 1 => fill (slots.setIfInBounds first value) value (first + 1) count

/-- A filled slot holds the value, any other slot what it held before. -/
theorem getElem_fill {α : Type} (slots : Vector α 65536) (value : α) (first count w : Nat)
    (hw : w < 65536) :
    (fill slots value first count)[w] =
      if first ≤ w ∧ w < first + count then value else slots[w] := by
  induction count generalizing slots first with
  | zero =>
      rw [if_neg (by omega)]
      rfl
  | succ count ih =>
      rw [fill, ih]
      rw [Vector.getElem_setIfInBounds hw]
      by_cases hfirst : first = w
      · rw [if_neg (by omega), if_pos hfirst, if_pos (by omega)]
      · rw [if_neg hfirst]
        by_cases hrange : first + 1 ≤ w ∧ w < first + 1 + count
        · rw [if_pos hrange, if_pos (by omega)]
        · rw [if_neg hrange, if_neg (by omega)]

/-- Filling slots keeps all of them below a bound that the value keeps to. -/
theorem get_fill_lt {slots : Vector Nat 65536} {value bound : Nat}
    (hslots : ∀ w : Word, slots.get w < bound) (hvalue : value < bound) (first count : Nat)
    (w : Word) : (fill slots value first count).get w < bound := by
  have hfill := getElem_fill slots value first count w.val w.isLt
  change (fill slots value first count)[w.val] < bound
  rw [hfill]
  split
  · exact hvalue
  · exact hslots w

/-- A table in the making.  Its slots hold positions of its definitions, and 0 as long as there are
none. -/
structure Canvas where
  definitions : Array Definition
  slots : Vector Nat 65536
  slots_lt : ∀ w : Word, slots.get w < max 1 definitions.size

namespace Canvas

/-- Nothing is painted yet. -/
def blank : Canvas where
  definitions := #[]
  slots := Vector.replicate 65536 0
  slots_lt := fun w => by
    have hzero : (Vector.replicate 65536 0).get w = 0 := Vector.getElem_replicate w.isLt
    omega

/-- Painting one more definition, with the number of those before it for its position. -/
def painted (canvas : Canvas) (d : Definition) : Canvas :=
  let position := canvas.definitions.size
  let slots := fill canvas.slots position d.first (d.stop - d.first)
  { definitions := canvas.definitions.push d
    slots
    slots_lt := by
      have hsize : (canvas.definitions.push d).size = position + 1 := Array.size_push d
      refine get_fill_lt (fun w => Nat.lt_of_lt_of_le (canvas.slots_lt w) ?_) ?_ _ _ <;> omega }

/-- Paints one more definition, whose position must fit in sixteen bits. -/
def paint (canvas : Canvas) (d : Definition) : Except BuildError Canvas :=
  if canvas.definitions.size < 65536 then .ok (canvas.painted d) else .error .tooManyDefinitions

/-- Paints the definitions of a catalog in order. -/
def expand (canvas : Canvas) : Catalog → Except BuildError Canvas
  | [] => .ok canvas
  | d :: rest => do (← canvas.paint d).expand rest

/-- Paints the catalogs of some overlays in order. -/
def overlay (canvas : Canvas) : List (Overlay × Catalog) → Course Canvas
  | [] => return canvas
  | (overlay, catalog) :: rest => do
      let canvas ← canvas.expand catalog
      Course.log [.overlaid overlay catalog.length]
      canvas.overlay rest

/-- The table that was painted. -/
def toTable (canvas : Canvas) (options : OverlaySet) (nonempty : 0 < canvas.definitions.size) :
    Table where
  options := options
  definitions := canvas.definitions
  slots := canvas.slots
  slots_lt := fun w => by
    have hslot := canvas.slots_lt w
    omega

/-- The table that was painted.  If nothing was, the catch-all is missing. -/
def finish (canvas : Canvas) (options : OverlaySet) : Except BuildError Table :=
  if nonempty : 0 < canvas.definitions.size then .ok (canvas.toTable options nonempty)
  else .error (.rejected ⟨.catchAllShape, []⟩)

end Canvas

/-! ## Building -/

/-- Examines the catalogs.  If they are refused, every fault is logged. -/
def examine (catalogs : Catalogs) : Course Unit :=
  match catalogs.validate with
  | .ok () => return ()
  | .error rejection => do
      Course.log (rejection.all.map .refused)
      (.error (.rejected rejection) : Except BuildError Unit)

/-- The course of building the table of the given catalogs under a choice of overlays. -/
def course (catalogs : Catalogs) (options : OverlaySet) : Course Table := do
  examine catalogs
  let canvas ← Canvas.blank.expand catalogs.catchAll
  let canvas ← canvas.expand catalogs.base
  Course.log [.painted catalogs.base.length]
  let canvas ← canvas.overlay (catalogs.enabled options)
  let table ← canvas.finish options
  Course.log [.finished options table.unknownCount]
  return table

/-- The table of the given catalogs under a choice of overlays. -/
def build (catalogs : Catalogs) (options : OverlaySet) : Except BuildError Table :=
  (course catalogs options).result

/-- What is logged while the table is built, in order. -/
def buildEvents (catalogs : Catalogs) (options : OverlaySet) : List Event :=
  (course catalogs options).events

/-! ## Events from results -/

/-- The overlays painted before positions run out, with `taken` positions taken already. -/
def overlayEvents (taken : Nat) : List (Overlay × Catalog) → List Event
  | [] => []
  | (overlay, catalog) :: rest =>
      if taken + catalog.length ≤ 65536 then
        .overlaid overlay catalog.length :: overlayEvents (taken + catalog.length) rest
      else []

/-- The layers painted before positions run out. -/
def layerEvents (catalogs : Catalogs) (options : OverlaySet) : List Event :=
  let taken := catalogs.catchAll.length + catalogs.base.length
  if taken ≤ 65536 then
    .painted catalogs.base.length :: overlayEvents taken (catalogs.enabled options)
  else []

/-- What is logged in a build that ends with the given result, in order. -/
def eventsOf (catalogs : Catalogs) (options : OverlaySet) : Except BuildError Table → List Event
  | .error (.rejected rejection) => rejection.all.map .refused
  | .error .tooManyDefinitions => layerEvents catalogs options
  | .ok table => layerEvents catalogs options ++ [.finished options table.unknownCount]

end Table

end WordAtlas
