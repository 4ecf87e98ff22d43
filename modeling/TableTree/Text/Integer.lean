/-!
# Reading 64-bit integers

Decimal digits with an optional sign. The digits are taken from the left, and the first fault
decides: a character that is no digit, or a value that has left the range.

Results:

* `Integer.read?` reads a text or names the fault, `IntegerFault.message` words it.
-/

namespace TableTree.Text

/-- Why a text is no 64-bit integer. -/
inductive IntegerFault
  /-- there is nothing to read -/
  | empty
  /-- a character that is no decimal digit, or a sign alone -/
  | badDigit
  /-- the value is above the range -/
  | tooLarge
  /-- the value is below the range -/
  | tooSmall
deriving DecidableEq, Repr

/-- The wording of a fault. -/
def IntegerFault.message : IntegerFault → String
  | .empty => "cannot parse integer from empty string"
  | .badDigit => "invalid digit found in string"
  | .tooLarge => "number too large to fit in target type"
  | .tooSmall => "number too small to fit in target type"

namespace Integer

/-- The value of a decimal digit. -/
def digit? (c : Char) : Option Nat :=
  if c.isDigit then some (c.toNat - '0'.toNat) else none

/-- The value of digits read from the left after those worth `sofar`. A value above `limit` is the
`fault`, found at the digit that makes it so. -/
def digits (limit : Nat) (fault : IntegerFault) : Nat → List Char → Except IntegerFault Nat
  | sofar, [] => .ok sofar
  | sofar, c :: s =>
    match digit? c with
    | none => .error .badDigit
    | some d =>
      if sofar * 10 + d ≤ limit then digits limit fault (sofar * 10 + d) s else .error fault

/-- The 64-bit integer that a text denotes. -/
def read? (s : List Char) : Except IntegerFault Int64 :=
  match s with
  | [] => .error .empty
  | ['+'] | ['-'] => .error .badDigit
  | '-' :: s => (digits Int64.minValue.toInt.natAbs .tooSmall 0 s).map fun n => Int64.ofInt (-n)
  | '+' :: s => (digits Int64.maxValue.toInt.natAbs .tooLarge 0 s).map fun n => Int64.ofInt n
  | s => (digits Int64.maxValue.toInt.natAbs .tooLarge 0 s).map fun n => Int64.ofInt n

end Integer

end TableTree.Text
