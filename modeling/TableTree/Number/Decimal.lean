import TableTree.Number.Binary64
/-!
# Decimals

A decimal is a number `digits * 10 ^ power`.

Results:

* `Decimal.ratio`: a decimal as a ratio of naturals.
* `Decimal.nearest?`: the binary64 number nearest to a decimal.
-/

namespace TableTree

/-- The number `digits * 10 ^ power`. -/
structure Decimal where
  digits : Nat
  power : Int
deriving DecidableEq, Repr

namespace Decimal

/-- The decimal with the given digits, of which so many stand after the point, times a power. -/
def ofDigits (whole fraction : List Char) (power : Int) : Decimal :=
  ⟨Nat.ofDigitChars 10 (whole ++ fraction) 0, power - fraction.length⟩

/-- The number of digits. -/
def size (d : Decimal) : Nat := (Nat.toDigits 10 d.digits).length

/-- A decimal as a ratio: its power multiplies the digits, or divides them when it is negative. -/
def ratio (d : Decimal) : Nat × Nat :=
  (d.digits * Nat.pow 10 d.power.toNat, Nat.pow 10 (-d.power).toNat)

/-- The binary64 number nearest to a decimal; none when it lies beyond the greatest one. A decimal
below `10 ^ (-400)` is nearest to zero, and one from `10 ^ 400` on lies beyond all numbers. -/
def nearest? (d : Decimal) : Option Binary64 :=
  if d.digits = 0 ∨ d.power + d.size < -400 then some Binary64.zero
  else if d.power + d.size > 400 then none
  else
    let (num, den) := d.ratio
    Binary64.ofRatio num den

end Decimal

end TableTree
