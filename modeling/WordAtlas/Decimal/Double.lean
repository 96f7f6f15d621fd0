/-!
# Floating-point numbers of 64 bits

A finite number is a sign and `m · 2 ^ q` with `m` below `2 ^ 53`; either `m` is at least `2 ^ 52`,
or `q` is the least exponent that there is.  A decimal fraction stands for the nearest such number,
of two equally near ones for that with an even `m`, and for an infinity when it is too large.
-/

namespace WordAtlas

/-- A floating-point number of 64 bits. -/
inductive Double
  | finite (negative : Bool) (m : Nat) (q : Int)
  | infinite (negative : Bool)
deriving DecidableEq, Repr

namespace Double

/-- The least exponent of a finite number. -/
def leastExponent : Int := -1074

/-- The greatest exponent of a finite number. -/
def greatestExponent : Int := 971

/-- The quotient rounded to the nearest integer, of two equally near ones to the even one. -/
def roundedQuotient (num den : Nat) : Nat :=
  let floor := num / den
  let rest := num % den
  if 2 * rest < den then floor
  else if den < 2 * rest then floor + 1
  else floor + floor % 2

/-- `⌊num / den⌋` scaled by `2 ^ (-q)`, rounded. -/
def scaledQuotient (num den : Nat) (q : Int) : Nat :=
  if 0 ≤ q then roundedQuotient num (den <<< q.toNat)
  else roundedQuotient (num <<< (-q).toNat) den

/-- The exponent of the number nearest to a positive quotient, before rounding. -/
def exponentOf (num den : Nat) : Int :=
  let estimate : Int := (num.log2 : Int) - den.log2
  let isBelow : Bool :=
    if 0 ≤ estimate then num < den <<< estimate.toNat
    else num <<< (-estimate).toNat < den
  max ((if isBelow then estimate - 1 else estimate) - 52) leastExponent

/-- The number nearest to a quotient. -/
def ofQuotient (negative : Bool) (num den : Nat) : Double :=
  if num = 0 then finite negative 0 leastExponent
  else
    let q := exponentOf num den
    let m := scaledQuotient num den q
    let (m, q) := if m = 1 <<< 53 then (1 <<< 52, q + 1) else (m, q)
    if greatestExponent < q then infinite negative else finite negative m q

/-- The number nearest to the decimal fraction `digits · 10 ^ exponent`.  Fractions far beyond the
range of finite numbers are recognised by their exponents. -/
def ofDecimal (negative : Bool) (digits : Nat) (exponent : Int) : Double :=
  if digits = 0 then finite negative 0 leastExponent
  else if 400 < exponent then infinite negative
  else if exponent + (Nat.toDigits 10 digits).length < -400 then finite negative 0 leastExponent
  else if 0 ≤ exponent then ofQuotient negative (digits * Nat.pow 10 exponent.toNat) 1
  else ofQuotient negative digits (Nat.pow 10 (-exponent).toNat)

/-- The integer that a number is, if it is one. -/
def toInt? : Double → Option Int
  | infinite _ => none
  | finite negative m q =>
      let size? : Option Nat :=
        if 0 ≤ q then some (m <<< q.toNat)
        else if m % (1 <<< (-q).toNat) = 0 then some (m >>> (-q).toNat)
        else none
      size?.map fun size => if negative then -(size : Int) else size

end Double

end WordAtlas
