/-!
# Nested lists

A nested list is a tree whose leaves carry items.  As an array it has a *shape*: the numbers of
parts on each level, as long as all parts of a level have equally many parts of their own.  A list
is *regular* if that goes on down to a level of items alone, or to a level with no parts at all;
otherwise it is *ragged* below the last level on which the parts agree.  The number of levels is
limited, and a list that is still regular below the last of them is *too deep*.
-/

namespace WordAtlas

/-- An item, or a list of nested lists. -/
inductive Nested (α : Type)
  | item (a : α)
  | group (parts : List (Nested α))

namespace Nested

variable {α β : Type}

instance : Inhabited (Nested α) := ⟨group []⟩

mutual

/-- Applies a function to every item. -/
def map (f : α → β) : Nested α → Nested β
  | item a => item (f a)
  | group parts => group (mapParts f parts)

/-- Applies a function to every item of some parts. -/
def mapParts (f : α → β) : List (Nested α) → List (Nested β)
  | [] => []
  | part :: rest => map f part :: mapParts f rest

end

mutual

/-- The items from left to right. -/
def leaves : Nested α → List α
  | item a => [a]
  | group parts => leavesOf parts

/-- The items of some parts from left to right. -/
def leavesOf : List (Nested α) → List α
  | [] => []
  | part :: rest => leaves part ++ leavesOf rest

end

/-- Whether this is an item. -/
def isItem : Nested α → Bool
  | item _ => true
  | group _ => false

/-- The parts of a list. -/
def parts? : Nested α → Option (List (Nested α))
  | item _ => none
  | group parts => some parts

/-- How a nested list ends below the levels of its shape. -/
inductive Ending
  | regular
  | ragged
  | tooDeep
deriving DecidableEq, Repr

/-- The parts on the next level, if all of these are lists of one length. -/
def nextLevel? (level : List (Nested α)) : Option (Nat × List (Nested α)) := do
  let lists ← level.mapM parts?
  match lists with
  | [] => none
  | first :: _ =>
      if lists.all fun parts => parts.length == first.length then
        some (first.length, lists.flatten)
      else none

/-- The shape from one level on, when at most `limit` more levels are allowed. -/
def shapeFrom : Nat → List (Nested α) → List Nat × Ending
  | limit, level =>
      if level.all isItem then ([], .regular)
      else match limit with
        | 0 => ([], .tooDeep)
        | limit + 1 =>
            match nextLevel? level with
            | none => ([], .ragged)
            | some (size, next) =>
                let (sizes, ending) := shapeFrom limit next
                (size :: sizes, ending)

/-- The shape of a nested list and how the list ends below it. -/
def shape (limit : Nat) (nested : Nested α) : List Nat × Ending :=
  shapeFrom limit [nested]

end Nested

end WordAtlas
