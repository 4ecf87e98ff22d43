/-!
# Non-negative binary64 numbers

A finite non-negative binary64 number is `mantissa * 2 ^ exponent` with a mantissa below `2 ^ 53`
and an exponent from -1074 to 971. Arithmetic is exact arithmetic on ratios of naturals, followed
by `ofRatio`, which rounds to the nearest number and a tie to the even mantissa.

Results:

* `roundDiv`: a quotient rounded to the nearest natural.
* `Binary64.ofRatio`: the binary64 number nearest to a ratio, if there is one.
* `Binary64.bits`: the 64-bit pattern.
-/

namespace TableTree

/-- The natural number nearest to `num / den`, and of two the even one. -/
def roundDiv (num den : Nat) : Nat :=
  let q := num / den
  let twice := 2 * (num % den)
  if twice < den ∨ (twice = den ∧ q % 2 = 0) then q else q + 1

/-- A finite non-negative binary64 number, `mantissa * 2 ^ exponent`. -/
structure Binary64 where
  mantissa : Nat
  exponent : Int
deriving DecidableEq, Repr

namespace Binary64

/-- The least exponent of a binary64 number. -/
def minExponent : Int := -1074

/-- The greatest exponent of a binary64 number. -/
def maxExponent : Int := 971

/-- The least mantissa of 53 bits. Only numbers with the least exponent have a smaller one. -/
def fullMantissa : Nat := 1 <<< 52

/-- The number zero. -/
def zero : Binary64 := ⟨0, minExponent⟩

/-- The numerator of a number as a ratio. -/
def num (x : Binary64) : Nat := x.mantissa <<< x.exponent.toNat

/-- The denominator of a number as a ratio. -/
def den (x : Binary64) : Nat := 1 <<< (-x.exponent).toNat

/-- The quotient of `num / den` by `2 ^ e`, as a ratio. -/
def shifted (num den : Nat) (e : Int) : Nat × Nat :=
  (num <<< (-e).toNat, den <<< e.toNat)

/-- The exponent of the number nearest to a ratio: the mantissa gets 53 bits, or fewer at the least
exponent. -/
def exponentOf (num den : Nat) : Int :=
  let e : Int := (num.log2 : Int) - den.log2 - 52
  let (n, d) := shifted num den e
  max minExponent (if n / d < fullMantissa then e - 1 else e)

/-- The number nearest to the ratio `num / den`, of two the one with the even mantissa; none when
it lies beyond the greatest number. -/
def ofRatio (num den : Nat) : Option Binary64 :=
  if num = 0 then some zero
  else
    let e := exponentOf num den
    let (n, d) := shifted num den e
    let m := roundDiv n d
    let (m, e) := if m = 2 * fullMantissa then (fullMantissa, e + 1) else (m, e)
    if e ≤ maxExponent then some ⟨m, e⟩ else none

/-- The number nearest to a natural number. -/
def ofNat? (n : Nat) : Option Binary64 := ofRatio n 1

/-- The sum, rounded. -/
def add? (x y : Binary64) : Option Binary64 :=
  ofRatio (x.num * y.den + y.num * x.den) (x.den * y.den)

/-- The quotient, rounded. -/
def div? (x y : Binary64) : Option Binary64 :=
  ofRatio (x.num * y.den) (x.den * y.num)

/-- The 64-bit pattern: the exponent field above the 52 low bits of the mantissa. -/
def bits (x : Binary64) : Nat :=
  if x.mantissa < fullMantissa then x.mantissa
  else (x.exponent + 1075).toNat * fullMantissa + (x.mantissa - fullMantissa)

end Binary64

end TableTree
