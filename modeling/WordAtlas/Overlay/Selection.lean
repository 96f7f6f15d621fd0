import WordAtlas.Overlay
import WordAtlas.Text.Blank
import WordAtlas.Text.Letters
import WordAtlas.Text.Pieces

/-!
# Choosing overlays

Users choose overlays by a list of names such as `stack,shift`, where blanks around a name and its
case do not matter, an empty item and `none` add nothing, and `all` adds every overlay.  A list
denotes the union of what its items denote (`ofItems_append`), and one unknown item makes the whole
list an error that names the first such item.

Without a list the choice comes from the environment: each overlay has a switch of its own, which is
on when it is set to anything but a word for "off".
-/

namespace WordAtlas.OverlaySet

/-- An item of a list that names no overlay, without the blanks around it. -/
structure Unknown where
  item : String
deriving DecidableEq, Repr

/-- The message about an item that names no overlay. -/
def Unknown.message (e : Unknown) : String :=
  "Unknown output option '" ++ e.item ++ "' (expected one of: " ++
    ", ".intercalate (Overlay.all.map Overlay.text) ++ ", all, none)"

/-- The name that an item of a list spells: its text without blanks around it, in capitals. -/
def spelledName (item : List Char) : String :=
  String.ofList (Text.upper (Text.strip item))

/-- The overlays that a name in capitals stands for. -/
def ofName? (name : String) : Option OverlaySet :=
  if name = "" ∨ name = "NONE" then some empty
  else if name = "ALL" then some full
  else (Overlay.ofName? name).map single

/-- The overlays that one item denotes. -/
def ofItem (item : List Char) : Except Unknown OverlaySet :=
  match ofName? (spelledName item) with
  | some s => .ok s
  | none => .error ⟨String.ofList (Text.strip item)⟩

/-- The overlays that a list of items denotes. -/
def ofItems : List (List Char) → Except Unknown OverlaySet
  | [] => .ok empty
  | item :: rest => do
      let s ← ofItem item
      let t ← ofItems rest
      return s.union t

/-- The overlays that a text denotes whose items are separated by commas. -/
def ofText (s : String) : Except Unknown OverlaySet :=
  ofItems (Text.pieces ',' s.toList)

/-- The variable that holds a list of overlays. -/
def listVariable : String :=
  "FR80_DECODE_OPTIONS"

/-- The variable that switches one overlay. -/
def switchVariable (overlay : Overlay) : String :=
  "FR80_OPT_" ++ overlay.name

/-- Whether the text of a switch means "off". -/
def isOff (s : String) : Bool :=
  ["0", "false", "off", ""].contains (String.ofList (Text.fold (Text.strip s.toList)))

/-- The overlays whose switches are set to anything but "off". -/
def ofSwitches (lookup : String → Option String) : OverlaySet :=
  let isOn (overlay : Overlay) : Bool :=
    match lookup (switchVariable overlay) with
    | none => false
    | some s => !isOff s
  ⟨isOn .stack, isOn .shift, isOn .dmov, isOn .specials⟩

/-- The overlays that an environment chooses: by the list if it is set, even to nothing, and by the
switches otherwise. -/
def ofEnvironment (lookup : String → Option String) : Except Unknown OverlaySet :=
  match lookup listVariable with
  | some s => ofText s
  | none => .ok (ofSwitches lookup)

/-- **Lists denote unions.**  Two lists one after the other denote the union of both, and the first
unknown item of either is the error. -/
theorem ofItems_append (items more : List (List Char)) :
    ofItems (items ++ more) = do
      let s ← ofItems items
      let t ← ofItems more
      return s.union t := by
  induction items with
  | nil =>
      cases h : ofItems more <;>
        simp [ofItems, bind, Except.bind, pure, Except.pure, h, union, empty]
  | cons item rest ih =>
      simp only [List.cons_append, ofItems, ih]
      cases ofItem item with
      | error e => rfl
      | ok s => cases ofItems rest with
        | error e => rfl
        | ok t => cases ofItems more with
          | error e => rfl
          | ok u => simp [bind, Except.bind, pure, Except.pure, union, Bool.or_assoc]

end WordAtlas.OverlaySet
