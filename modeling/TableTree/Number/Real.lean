import TableTree.Number.Decimal
/-!
# Binary64 values

All that a binary64 literal can stand for: a finite number with a sign, an infinity, or no number.

Results:

* `Real64.ofInt?`: the value nearest to an integer.
* `Real64.ofDecimal?`: the value nearest to a signed decimal.
-/

namespace TableTree

/-- A binary64 value. -/
inductive Real64 where
  | finite (negative : Bool) (magnitude : Binary64)
  | infinite (negative : Bool)
  | notANumber
deriving DecidableEq

namespace Real64

/-- The value nearest to an integer. -/
def ofInt? (n : Int) : Option Real64 :=
  (Binary64.ofNat? n.natAbs).map (.finite (decide (n < 0)))

/-- The value nearest to a decimal with a sign. Below the least number lies the negative infinity,
but no value is given to a decimal beyond the greatest number. -/
def ofDecimal? (negative : Bool) (d : Decimal) : Option Real64 :=
  match d.nearest? with
  | some x => some (.finite negative x)
  | none => if negative then some (.infinite true) else none

end Real64

end TableTree
