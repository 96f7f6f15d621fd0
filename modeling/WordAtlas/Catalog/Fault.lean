import WordAtlas.Catalog
import WordAtlas.Token

/-!
# What can be wrong with catalogs

Every catalog has to claim its words in clean ranges: each mask a prefix mask, no encoding bit
outside its mask, and no word claimed twice.  The entries are examined in order, and an entry at
fault claims nothing, so a later one is only held against the *accepted* entries before it.  The
two strings of every entry have to keep to their vocabularies.

An overlay entry has to rename a base entry: one with the same encoding and mask must exist, and
everything but mnemonic, display string and action string has to stay as it is there.

The catch-all catalog, in addition, must be one definition with an empty mask.  `Catalogs.faults`
lists all that is wrong, in order, and `Catalogs.validate` accepts the catalogs when the list is
empty.
-/

namespace WordAtlas

namespace Catalog

/-- What is wrong with one entry of a catalog. -/
inductive Fault
  /-- The mask is not a run of set high bits. -/
  | maskShape (d : Definition)
  /-- The encoding sets bits outside the mask. -/
  | strayBits (d : Definition)
  /-- An earlier entry claims words of this one, `word` being the least of them. -/
  | overlap (d other : Definition) (word : Nat)
  /-- A string steps outside its vocabulary. -/
  | token (fault : Token.Fault)
deriving DecidableEq, Repr

/-- The message about an entry of a catalog. -/
def Fault.message : Fault → String
  | .maskShape d => d.label ++ " has non-prefix mask " ++ Text.Hex.padded 4 d.mask.val
  | .strayBits d => d.label ++ " sets bits outside mask " ++ Text.Hex.padded 4 d.mask.val
  | .overlap d other word =>
      d.label ++ " overlaps " ++ other.label ++ " at word " ++ Text.Hex.padded 4 word
  | .token fault => fault.message

/-- The first word in the ranges of both definitions. -/
def meeting? (d other : Definition) : Option Nat :=
  if d.first < other.stop ∧ other.first < d.stop then some (max d.first other.first) else none

/-- The least word that a definition shares with one of the others, and the other. -/
def clash? (d : Definition) : List Definition → Option (Nat × Definition)
  | [] => none
  | other :: rest =>
      match meeting? d other with
      | none => clash? d rest
      | some word =>
          match clash? d rest with
          | some (least, owner) => if least < word then some (least, owner) else some (word, other)
          | none => some (word, other)

/-- The first thing that is wrong with the claim of an entry, given the entries accepted before. -/
def claimFault? (accepted : List Definition) (d : Definition) : Option Fault :=
  if !Mask.isPrefix d.mask then some (.maskShape d)
  else if !d.fitsMask then some (.strayBits d)
  else (clash? d accepted).map fun (word, other) => .overlap d other word

/-- What is wrong with the claims of a catalog's entries, given the entries accepted before. -/
def claimFaultsAfter (accepted : List Definition) : Catalog → List Fault
  | [] => []
  | d :: rest =>
      match claimFault? accepted d with
      | some fault => fault :: claimFaultsAfter accepted rest
      | none => claimFaultsAfter (d :: accepted) rest

/-- What is wrong with a catalog: the faults of the claims, then those of the strings. -/
def faults (catalog : Catalog) : List Fault :=
  claimFaultsAfter [] catalog ++ (Token.faults catalog).map .token

end Catalog

namespace Overlay

/-- What an overlay entry must leave as its base entry has it. -/
inductive Trait
  | format
  | xCount
  | yCount
  | flow
  | conditional
  | delaySlot
deriving DecidableEq, Repr

namespace Trait

/-- All traits, in the order in which they are compared. -/
def all : List Trait :=
  [format, xCount, yCount, flow, conditional, delaySlot]

/-- The name of a trait in messages. -/
def name : Trait → String
  | format => "instruction_format"
  | xCount => "extra_word_count_x"
  | yCount => "extra_word_count_y"
  | flow => "flow_type"
  | conditional => "is_conditional"
  | delaySlot => "has_delay_slot"

/-- Whether two definitions agree in a trait. -/
def agrees (d other : Definition) : Trait → Bool
  | format => d.format == other.format
  | xCount => d.xCount == other.xCount
  | yCount => d.yCount == other.yCount
  | flow => d.flow == other.flow
  | conditional => d.conditional == other.conditional
  | delaySlot => d.delaySlot == other.delaySlot

end Trait

/-- What is wrong with one entry of an overlay catalog. -/
inductive Fault
  /-- No base entry has the encoding and mask of this one. -/
  | unknownSlot (d : Definition)
  /-- A trait differs from that of the base entry. -/
  | changed (d renamed : Definition) (trait : Trait)
deriving DecidableEq, Repr

/-- The message about an entry of an overlay catalog. -/
def Fault.message : Fault → String
  | .unknownSlot d =>
      d.label ++ " (mask " ++ Text.Hex.padded 4 d.mask.val ++ ") has no base counterpart"
  | .changed d renamed trait => d.label ++ " changes " ++ trait.name ++ " of " ++ renamed.label

/-- The base entry that an overlay entry renames: the last with its encoding and mask.  The base
is given from its last entry to its first. -/
def renamed? (latestFirst : Catalog) (d : Definition) : Option Definition :=
  latestFirst.find? d.sameSlot

/-- What is wrong with one entry of an overlay catalog over a base that is given from its last entry
to its first. -/
def faultsOf (latestFirst : Catalog) (d : Definition) : List Fault :=
  match renamed? latestFirst d with
  | none => [.unknownSlot d]
  | some renamed =>
      (Trait.all.filter fun trait => !Trait.agrees d renamed trait).map (.changed d renamed)

/-- What is wrong with an overlay catalog over the given base. -/
def faults (base overlay : Catalog) : List Fault :=
  overlay.flatMap (faultsOf base.reverse)

end Overlay

namespace Catalogs

/-- What is wrong with the catalogs as a whole. -/
inductive Fault
  /-- The catch-all catalog is not one definition with an empty mask. -/
  | catchAllShape
  /-- An entry of the catalog with the given label is at fault. -/
  | entry (label : String) (fault : Catalog.Fault)
  /-- An entry of the overlay catalog with the given label does not rename a base entry. -/
  | renaming (label : String) (fault : Overlay.Fault)
deriving DecidableEq, Repr

/-- The message about the catalogs. -/
def Fault.message : Fault → String
  | .catchAllShape => "catch-all: expected exactly one definition with mask 0x0000"
  | .entry label fault => label ++ ": " ++ fault.message
  | .renaming label fault => label ++ ": " ++ fault.message

/-- Whether a catalog is one definition with an empty mask. -/
def isCatchAll : Catalog → Bool
  | [d] => d.mask == 0
  | _ => false

/-- All that is wrong with the catalogs: the shape of the catch-all, the entries of the catch-all
and of the base, and for every overlay catalog, in the order given, its entries and then their
renaming of base entries. -/
def faults (catalogs : Catalogs) : List Fault :=
  (if isCatchAll catalogs.catchAll then [] else [.catchAllShape]) ++
  (Catalog.faults catalogs.catchAll).map (.entry "catch-all") ++
  (Catalog.faults catalogs.base).map (.entry "base") ++
  catalogs.overlays.flatMap fun (options, catalog) =>
    (Catalog.faults catalog).map (.entry options.label) ++
    (Overlay.faults catalogs.base catalog).map (.renaming options.label)

/-- Catalogs that were refused, with all that is wrong with them. -/
structure Rejection where
  first : Fault
  others : List Fault
deriving DecidableEq, Repr

/-- The message about catalogs that were refused. -/
def Rejection.message (rejection : Rejection) : String :=
  s!"{rejection.others.length + 1} catalog invariant violation(s); first: " ++
    rejection.first.message

/-- All that is wrong with refused catalogs, in order. -/
def Rejection.all (rejection : Rejection) : List Fault :=
  rejection.first :: rejection.others

/-- Accepts the catalogs that have no fault. -/
def validate (catalogs : Catalogs) : Except Rejection Unit :=
  match catalogs.faults with
  | [] => .ok ()
  | first :: others => .error ⟨first, others⟩

/-- Catalogs are accepted exactly when nothing is wrong with them. -/
theorem validate_eq_ok_iff {catalogs : Catalogs} :
    catalogs.validate = .ok () ↔ catalogs.faults = [] := by
  unfold validate
  split <;> simp_all

/-- A rejection reports every fault. -/
theorem validate_eq_error_iff {catalogs : Catalogs} {rejection : Rejection} :
    catalogs.validate = .error rejection ↔ catalogs.faults = rejection.all := by
  obtain ⟨first, others⟩ := rejection
  unfold validate Rejection.all
  split <;> simp_all

end Catalogs

end WordAtlas
