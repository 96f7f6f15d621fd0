/-!
# Hexadecimal numerals

Words, masks and encodings are shown in lower-case hexadecimal behind `0x`.  A negative number
carries its sign in front of the `0x`, as in `-0x1`.
-/

namespace WordAtlas.Text.Hex

/-- The lower-case hexadecimal digits of a number, without anything in front. -/
def digits (n : Nat) : String :=
  String.ofList (Nat.toDigits 16 n)

/-- A number in hexadecimal, its sign before the `0x`. -/
def ofInt (z : Int) : String :=
  if z < 0 then "-0x" ++ digits z.natAbs else "0x" ++ digits z.natAbs

/-- A number in hexadecimal with at least `width` digits, filled up with zeros on the left. -/
def padded (width n : Nat) : String :=
  let shown := digits n
  "0x" ++ String.ofList (List.replicate (width - shown.length) '0') ++ shown

/-- The digits alone, filled up with zeros to at least `width` of them. -/
def filled (width n : Nat) : List Char :=
  let shown := Nat.toDigits 16 n
  List.replicate (width - shown.length) '0' ++ shown

/-- The value of a hexadecimal digit in either case. -/
def value? (c : Char) : Option Nat :=
  if '0' ≤ c ∧ c ≤ '9' then some (c.toNat - '0'.toNat)
  else if 'a' ≤ c ∧ c ≤ 'f' then some (c.toNat - 'a'.toNat + 10)
  else if 'A' ≤ c ∧ c ≤ 'F' then some (c.toNat - 'A'.toNat + 10)
  else none

end WordAtlas.Text.Hex
