import WordAtlas.Decimal.Double

/-!
# The shortest decimal of a floating-point number

A number is shown by the fewest decimal digits that read back as that number.  For one digit, two
digits and so on the two neighbours of the number on that decimal grid are tried, the nearer one
first and of two equally near ones that with the even digit; the first that lies among the reals
nearest to the number is taken.  Seventeen digits always suffice.
-/

namespace WordAtlas.Shortest

/-- A positive quotient. -/
structure Quotient where
  num : Nat
  den : Nat
deriving DecidableEq, Repr

/-- The quotient `n · 2 ^ q`. -/
def binary (n : Nat) (q : Int) : Quotient :=
  if 0 ≤ q then ⟨n <<< q.toNat, 1⟩ else ⟨n, 1 <<< (-q).toNat⟩

/-- The quotient `n · 10 ^ e`. -/
def decimal (n : Nat) (e : Int) : Quotient :=
  if 0 ≤ e then ⟨n * Nat.pow 10 e.toNat, 1⟩ else ⟨n, Nat.pow 10 (-e).toNat⟩

/-- Whether one quotient is smaller than another. -/
def Quotient.below (a b : Quotient) : Bool :=
  a.num * b.den < b.num * a.den

/-- Whether a quotient is among the reals whose nearest number is `m · 2 ^ q`.  The ends of that
interval belong to it when `m` is even; below a power of two it reaches half as far. -/
def isNearest (m : Nat) (q : Int) (a : Quotient) : Bool :=
  let low :=
    if m = 1 <<< 52 ∧ Double.leastExponent < q then binary (4 * m - 1) (q - 2)
    else binary (2 * m - 1) (q - 1)
  let high := binary (2 * m + 1) (q - 1)
  if m % 2 = 0 then !a.below low && !high.below a
  else low.below a && a.below high

/-- The power of ten in front of the leading digit of a quotient below one, tried from `e` down. -/
def leadingBelowOne (a : Quotient) : Nat → Int → Int
  | 0, e => e
  | fuel + 1, e => if a.below (decimal 1 e) then leadingBelowOne a fuel (e - 1) else e

/-- The power of ten in front of the leading digit of a quotient. -/
def leading (a : Quotient) : Int :=
  if a.num < a.den then leadingBelowOne a 400 (-1)
  else (Nat.toDigits 10 (a.num / a.den)).length - 1

/-- The digits that show `m · 2 ^ q` with a digit of value `10 ^ e` as the last one, if any do. -/
def onGrid? (m : Nat) (q : Int) (e : Int) : Option Nat :=
  let a := binary m q
  let unit := decimal 1 e
  let floor := a.num * unit.den / (a.den * unit.num)
  let rest := a.num * unit.den % (a.den * unit.num)
  let middle := a.den * unit.num
  let upperIsNearer := middle < 2 * rest || (2 * rest == middle && floor % 2 == 1)
  let (nearer, farther) := if upperIsNearer then (floor + 1, floor) else (floor, floor + 1)
  if isNearest m q (decimal nearer e) then some nearer
  else if isNearest m q (decimal farther e) then some farther
  else none

/-- The first grid that shows `m · 2 ^ q`, of those whose last digit has the value `10 ^ e` or
less. -/
def firstGrid (m : Nat) (q : Int) : Nat → Int → Nat × Int
  | 0, e => (m, e)
  | fuel + 1, e =>
      match onGrid? m q e with
      | some digits => (digits, e)
      | none => firstGrid m q fuel (e - 1)

/-- The digits of the shortest decimal of the positive number `m · 2 ^ q` and the power of ten of
its last digit. -/
def digitsOf (m : Nat) (q : Int) : Nat × Int :=
  firstGrid m q 17 (leading (binary m q))

/-- The digits of a number in front of the power of ten of the last one. -/
structure Shown where
  digits : List Char
  /-- The power of ten of the first digit. -/
  exponent : Int
deriving DecidableEq, Repr

/-- Removes the zeros at the end of some digits. -/
def trimZeros (digits : List Char) : List Char :=
  (digits.reverse.dropWhile (· == '0')).reverse

/-- The digits of the shortest decimal of a positive number, without zeros at the end, and the power
of ten of the first of them. -/
def ofBinary (m : Nat) (q : Int) : Shown :=
  let (n, e) := digitsOf m q
  let digits := Nat.toDigits 10 n
  ⟨trimZeros digits, e + digits.length - 1⟩

end WordAtlas.Shortest
