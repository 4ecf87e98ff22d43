/-!
# Durations

A span of time in whole nanoseconds, up to `2^64 - 1` seconds and 999 999 999 nanoseconds.
Products saturate at that bound.

Results:

* `Duration.ext`, `Duration.nanos_ofNanos`: a duration is its number of nanoseconds.
* `Duration.nanos_scale`, `Duration.nanos_min`: products and minima in nanoseconds.
* `Duration.ceilMillis_pos_iff`: every duration but the empty one begins a millisecond.
* `Duration.text`: the text of a duration, in the largest unit it fills at least once.
-/

namespace TableTree

/-- The nanoseconds of a microsecond. -/
def nanosPerMicro : Nat := 1000

/-- The nanoseconds of a millisecond. -/
def nanosPerMilli : Nat := 1000000

/-- The nanoseconds of a second. -/
def nanosPerSecond : Nat := 1000000000

/-- The largest number of nanoseconds in a duration. -/
def maxNanos : Nat := UInt64.size * nanosPerSecond - 1

/-- A span of time in nanoseconds. -/
structure Duration where
  nanos : Nat
  le_max : nanos ≤ maxNanos
deriving DecidableEq

namespace Duration

@[ext] theorem ext {a b : Duration} (h : a.nanos = b.nanos) : a = b := by
  cases a; cases b; cases h; rfl

/-- The duration of so many nanoseconds, or the longest one. -/
def ofNanos (n : Nat) : Duration := ⟨min n maxNanos, Nat.min_le_right _ _⟩

/-- The duration of so many milliseconds, or the longest one. -/
def ofMillis (n : Nat) : Duration := ofNanos (n * nanosPerMilli)

/-- The duration of so many seconds, or the longest one. -/
def ofSeconds (n : Nat) : Duration := ofNanos (n * nanosPerSecond)

/-- The whole seconds. -/
def seconds (d : Duration) : Nat := d.nanos / nanosPerSecond

/-- The nanoseconds beyond the whole seconds. -/
def subNanos (d : Duration) : Nat := d.nanos % nanosPerSecond

/-- A duration taken `factor` times, or the longest one. -/
def scale (d : Duration) (factor : Nat) : Duration := ofNanos (d.nanos * factor)

/-- The milliseconds that a duration fills or begins. -/
def ceilMillis (d : Duration) : Nat := (d.nanos + (nanosPerMilli - 1)) / nanosPerMilli

instance : LE Duration := ⟨fun a b => a.nanos ≤ b.nanos⟩
instance : LT Duration := ⟨fun a b => a.nanos < b.nanos⟩
instance (a b : Duration) : Decidable (a ≤ b) := inferInstanceAs (Decidable (a.nanos ≤ b.nanos))
instance (a b : Duration) : Decidable (a < b) := inferInstanceAs (Decidable (a.nanos < b.nanos))
instance : Min Duration := ⟨fun a b => if a ≤ b then a else b⟩
instance : Inhabited Duration := ⟨ofNanos 0⟩

@[simp] theorem nanos_ofNanos (n : Nat) : (ofNanos n).nanos = min n maxNanos := rfl

@[simp] theorem nanos_scale (d : Duration) (k : Nat) :
    (d.scale k).nanos = min (d.nanos * k) maxNanos := rfl

theorem le_iff {a b : Duration} : a ≤ b ↔ a.nanos ≤ b.nanos := Iff.rfl

theorem lt_iff {a b : Duration} : a < b ↔ a.nanos < b.nanos := Iff.rfl

@[simp] theorem nanos_min (a b : Duration) : (min a b).nanos = min a.nanos b.nanos := by
  show (if a ≤ b then a else b).nanos = _
  split <;> rename_i h <;> simp only [le_iff] at h <;> omega

theorem min_eq_left {a b : Duration} (h : a ≤ b) : min a b = a :=
  ext ((nanos_min a b).trans (Nat.min_eq_left h))

/-- Only a wait of nothing takes no millisecond. -/
theorem ceilMillis_pos_iff {d : Duration} : 0 < d.ceilMillis ↔ 0 < d.nanos := by
  unfold ceilMillis nanosPerMilli
  omega

/-! ## Text -/

/-- The digits after the point of `part / 10 ^ places`, without zeros at the end. -/
def fraction (places part : Nat) : List Char :=
  let digits := Nat.toDigits 10 part
  let padded := List.replicate (places - digits.length) '0' ++ digits
  (padded.reverse.dropWhile (· == '0')).reverse

/-- A whole number and a part of `10 ^ places`, as a decimal. -/
def decimal (whole part places : Nat) : String :=
  match fraction places part with
  | [] => toString whole
  | digits => toString whole ++ "." ++ String.ofList digits

/-- The text of a duration: the largest of the units s, ms, µs and ns that it fills at least once,
with all its digits and no zero at the end. -/
def text (d : Duration) : String :=
  let inUnit (unit places : Nat) : String := decimal (d.nanos / unit) (d.nanos % unit) places
  if d.nanos ≥ nanosPerSecond then inUnit nanosPerSecond 9 ++ "s"
  else if d.nanos ≥ nanosPerMilli then inUnit nanosPerMilli 6 ++ "ms"
  else if d.nanos ≥ nanosPerMicro then inUnit nanosPerMicro 3 ++ "µs"
  else inUnit 1 0 ++ "ns"

end Duration

end TableTree
