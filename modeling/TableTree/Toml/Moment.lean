import TableTree.Text.Reader
/-!
# Dates and times

Results:

* `Moment`: a day, a time of day, or both, with or without an offset.
* `Date.IsValid`: the days of the calendar.
* `moment`: a date or time as it is written.
-/

namespace TableTree.Toml

open Reader

/-- A day. -/
structure Date where
  year : Nat
  month : Nat
  day : Nat
deriving DecidableEq

/-- A time of day. The second 60 is a leap second. -/
structure TimeOfDay where
  hour : Nat
  minute : Nat
  second : Nat
  /-- the digits of the fraction of a second -/
  fraction : List Char
deriving DecidableEq

/-- A day, a time of day, or both; the offset is in minutes. -/
inductive Moment where
  | date (date : Date)
  | time (time : TimeOfDay)
  | both (date : Date) (time : TimeOfDay) (offset : Option Int)
deriving DecidableEq

namespace Date

/-- Whether a year has a 29 February. -/
def isLeap (year : Nat) : Bool := year % 4 = 0 && (year % 100 ≠ 0 || year % 400 = 0)

/-- The number of days of a month. -/
def monthLength (year month : Nat) : Nat :=
  if month = 2 then if isLeap year then 29 else 28
  else if month = 4 ∨ month = 6 ∨ month = 9 ∨ month = 11 then 30
  else 31

/-- Whether a day is a day of the calendar. -/
def IsValid (d : Date) : Prop :=
  1 ≤ d.month ∧ d.month ≤ 12 ∧ 1 ≤ d.day ∧ d.day ≤ monthLength d.year d.month

instance (d : Date) : Decidable d.IsValid := inferInstanceAs (Decidable (_ ∧ _))

end Date

/-- A number of so many digits. -/
def fixed (count : Nat) : Reader Nat := do
  pure (Nat.ofDigitChars 10 (← exactly count Char.isDigit) 0)

/-- A number of two digits that is not above a bound. -/
def upTo (bound : Nat) : Reader Nat := do
  let n ← fixed 2
  if n ≤ bound then pure n else failure

/-- A day. -/
def date : Reader Date := do
  let year ← fixed 4
  char '-'
  let month ← fixed 2
  char '-'
  let day ← fixed 2
  let d : Date := ⟨year, month, day⟩
  if d.IsValid then pure d else failure

/-- A time of day. -/
def timeOfDay : Reader TimeOfDay := do
  let hour ← upTo 23
  char ':'
  let minute ← upTo 59
  char ':'
  let second ← upTo 60
  let fraction ← maybe (char '.' *> do
    let first ← satisfying Char.isDigit
    (first :: ·) <$> Reader.takeWhile Char.isDigit)
  pure ⟨hour, minute, second, fraction.getD []⟩

/-- An offset in minutes. -/
def offset : Reader Int :=
  (do let _ ← satisfying fun c => c = 'Z' || c = 'z'; pure 0) <|> do
    let east ← char '+' *> pure true <|> char '-' *> pure false
    let hour ← upTo 23
    char ':'
    let minute ← upTo 59
    let minutes : Int := 60 * hour + minute
    pure (if east then minutes else -minutes)

/-- A time of day after a day. -/
def timeOfDate : Reader (TimeOfDay × Option Int) := do
  let _ ← satisfying fun c => c = 'T' || c = 't' || c = ' '
  let time ← timeOfDay
  pure (time, ← maybe offset)

/-- A date or a time. -/
def moment : Reader Moment :=
  (do
    let day ← date
    match ← maybe timeOfDate with
    | some (time, offset) => pure (.both day time offset)
    | none => pure (.date day)) <|> .time <$> timeOfDay

end TableTree.Toml
