/-!
# Bits of unbounded integers

An integer of any size and sign has infinitely many bits: a negative one is the bitwise complement
of a natural number, so its high bits are all set.  Two operations are needed.  `masked` keeps the
bits of an integer that a natural mask selects; `either` joins two integers bit by bit.  Each is
pinned down by one law on single bits: `testBit_masked` and `testBit_either`.
-/

namespace WordAtlas.Bits

/-- Bit `i` of an integer. -/
def testBit : Int → Nat → Bool
  | .ofNat n, i => n.testBit i
  | .negSucc n, i => !n.testBit i

/-- The bits of `m` that are clear in `n`. -/
def without (m n : Nat) : Nat :=
  m ^^^ (m &&& n)

/-- The bits of an integer that the mask `m` selects. -/
def masked : Int → Nat → Nat
  | .ofNat n, m => n &&& m
  | .negSucc n, m => without m n

/-- The integer whose bits are set where a bit of either argument is. -/
def either : Int → Int → Int
  | .ofNat m, .ofNat n => .ofNat (m ||| n)
  | .ofNat m, .negSucc n => .negSucc (without n m)
  | .negSucc m, .ofNat n => .negSucc (without m n)
  | .negSucc m, .negSucc n => .negSucc (m &&& n)

theorem testBit_without (m n i : Nat) :
    (without m n).testBit i = (m.testBit i && !n.testBit i) := by
  cases hm : m.testBit i <;> cases hn : n.testBit i <;> simp [without, hm, hn]

/-- A masked bit is set when it is set in the integer and in the mask. -/
theorem testBit_masked (z : Int) (m i : Nat) :
    (masked z m).testBit i = (testBit z i && m.testBit i) := by
  cases z with
  | ofNat n => simp [masked, testBit]
  | negSucc n => simp [masked, testBit, testBit_without, Bool.and_comm]

/-- A joined bit is set when it is set on either side. -/
theorem testBit_either (a b : Int) (i : Nat) :
    testBit (either a b) i = (testBit a i || testBit b i) := by
  cases a with
  | ofNat m => cases b with
    | ofNat n => simp [either, testBit]
    | negSucc n => simp [either, testBit, testBit_without, Bool.or_comm]
  | negSucc m => cases b with
    | ofNat n => simp [either, testBit, testBit_without]
    | negSucc n => simp [either, testBit]

end WordAtlas.Bits
