import WordAtlas.Word

/-!
# Masks

A mask says which bits of a word are fixed.  A *prefix mask* is a run of set high bits followed by
clear bits, so the words that agree with an encoding on its set bits form one unbroken range.
-/

namespace WordAtlas.Mask

/-- The bits that a mask leaves free, as a number: its complement within sixteen bits. -/
def freeBits (mask : Word) : Nat :=
  65535 - mask.val

/-- Whether a mask is a run of set high bits followed by clear bits: its free bits must have the
form `0…01…1`, which shares no bit with its successor. -/
def isPrefix (mask : Word) : Bool :=
  freeBits mask &&& (freeBits mask + 1) == 0

/-- Whether a number of any size is a prefix mask; one outside the words is not. -/
def isPrefixNumber (z : Int) : Bool :=
  match Word.ofInt z with
  | .ok mask => isPrefix mask
  | .error _ => false

end WordAtlas.Mask
