import TableTree.Number.Real
import TableTree.Toml.Text
/-!
# Numbers

Single underscores may stand between digits. A decimal integer has no zeros in front. An integer to
the base 2, 8 or 16 has no sign. A real has a fraction or a power of ten.

Results:

* `integer`: an integer of 64 bits.
* `real`: a binary64 value, rounded to the nearest.
-/

namespace TableTree.Toml

open Reader

/-- Whether a sign says that a number is negative; the sign may be absent. -/
def sign : Reader Bool := char '-' *> pure true <|> char '+' *> pure false <|> pure false

/-- Digits, with single underscores between them. -/
def digits (isDigit : Char → Bool) : Reader (List Char) := do
  let first ← satisfying isDigit
  let rest ← many (satisfying isDigit <|> char '_' *> satisfying isDigit)
  pure (first :: rest)

/-- The digits of a decimal integer: a zero alone, or no zero in front. -/
def decimalDigits : Reader (List Char) :=
  char '0' *> pure ['0'] <|> digits Char.isDigit

/-- An integer that fits into 64 bits. -/
def fitting (n : Int) : Reader Int64 :=
  if Int64.minValue.toInt ≤ n ∧ n ≤ Int64.maxValue.toInt then pure (Int64.ofInt n) else failure

/-- An integer to a base that a mark names. -/
def based (mark : String) (base : Nat) : Reader Int64 := do
  word mark
  let ds ← digits fun c => isHex c && hexDigit c < base
  fitting (ds.foldl (fun n c => base * n + hexDigit c) 0 : Nat)

/-- An integer. -/
def integer : Reader Int64 :=
  based "0x" 16 <|> based "0o" 8 <|> based "0b" 2 <|> do
    let negative ← sign
    let n := Nat.ofDigitChars 10 (← decimalDigits) 0
    fitting (if negative then -n else n)

/-- The power of ten of a real. -/
def power : Reader Int := do
  let _ ← satisfying fun c => c = 'e' || c = 'E'
  let negative ← sign
  let n := Nat.ofDigitChars 10 (← digits Char.isDigit) 0
  pure (if negative then -n else n)

/-- A real that is written with digits. -/
def digitReal (negative : Bool) : Reader Real64 := do
  let whole ← decimalDigits
  let fraction ← maybe (char '.' *> digits Char.isDigit)
  let exponent ← maybe power
  if fraction.isNone ∧ exponent.isNone then failure
  StateT.lift (Real64.ofDecimal? negative
    (Decimal.ofDigits whole (fraction.getD []) (exponent.getD 0)))

/-- A real: digits with a fraction or a power of ten, an infinity, or no number. -/
def real : Reader Real64 := do
  let negative ← sign
  word "inf" *> pure (.infinite negative) <|> word "nan" *> pure .notANumber <|>
    digitReal negative

end TableTree.Toml
