import Mathlib.Algebra.Group.Nat.Defs
import TableTree.Backoff

/-!
# Waits that double

Each wait of a policy is to be twice the one before, up to the longest wait. The factor is held in 32
bits, so it stops at `2 ^ 32 - 1` instead of going on to `2 ^ 32`. Up to there the waits double exactly:
a product that is too long for a duration is longer than the longest wait. Behind it they double only
if the longest wait is reached already, or all waits are zero.

Results:

* `Policy.factor_eq`: the factor in one formula.
* `Policy.nanos_delay?_eq`: the waits in nanoseconds.
* `Policy.doubled?`: the waits if doubling went on.
* `Policy.delays_double`: where the waits of a policy are these.
* `Sample.doubling_stops`: waits that stay below the longest one.
-/

namespace TableTree

namespace Policy

/-- Before the retry that `count` others came before, the nanoseconds of a wait that has doubled after
each of them, up to the longest wait. -/
def doubled? (p : Policy) (count : UInt32) : Option Nat :=
  if count < p.maxRetries then some (min (p.baseDelay.nanos * 2 ^ count.toNat) p.maxDelay.nanos)
  else none

/-- Up to the thirty-second wait the power of two is held in 32 bits. -/
theorem two_pow_le_iff (count : UInt32) : 2 ^ count.toNat ≤ 2 ^ 32 - 1 ↔ count < 32 := by
  have hword : (32 : UInt32).toNat = 32 := rfl
  rw [UInt32.lt_iff_toNat_lt, hword, Nat.le_sub_one_iff_lt (by decide),
    Nat.pow_lt_pow_iff_right (by decide)]

/-- The factor is a power of two as long as 32 bits hold it, and the largest number of 32 bits from
then on. -/
theorem factor_eq (count : UInt32) : factor count = min (2 ^ count.toNat) (2 ^ 32 - 1) := by
  have hheld := two_pow_le_iff count
  unfold factor
  split
  · rename_i h
    rw [Nat.one_shiftLeft, Nat.min_eq_left (hheld.2 h)]
  · rename_i h
    have hsize : UInt32.size - 1 = 2 ^ 32 - 1 := by decide
    rw [hsize, Nat.min_eq_right (Nat.le_of_not_le (mt hheld.1 h))]

/-- The waits in nanoseconds. No product is cut off at the longest duration, since the longest wait is
no longer than that. -/
theorem nanos_delay?_eq (p : Policy) (count : UInt32) :
    (p.delay? count).map Duration.nanos =
      if count < p.maxRetries then
        some (min (p.baseDelay.nanos * min (2 ^ count.toNat) (2 ^ 32 - 1)) p.maxDelay.nanos)
      else none := by
  have hlongest := p.maxDelay.le_max
  unfold delay?
  split
  · simp only [Option.map_some, Duration.nanos_min, Duration.nanos_scale, factor_eq, Option.some.injEq]
    omega
  · rfl

/-- Two multiples up to a bound are the same if the smaller one reaches the bound, or nothing is
multiplied. -/
theorem min_mul_eq_iff {base bound less more : Nat} (h : less < more) :
    min (base * less) bound = min (base * more) bound ↔ base = 0 ∨ bound ≤ base * less := by
  rcases Nat.eq_zero_or_pos base with rfl | hbase
  · simp
  · have hlt : base * less < base * more := Nat.mul_lt_mul_of_pos_left h hbase
    omega

/-- **Doubling waits.** A policy has a wait before each retry within its budget and none after it. The
wait is the base delay times a power of two, which is at most `2 ^ 32 - 1`, or the longest wait if that
is shorter. So the waits double up to the longest one exactly where the factor does, that is before the
first 32 retries, and after that where the longest wait is reached or every wait is zero. -/
theorem delays_double (p : Policy) (count : UInt32) :
    ((p.delay? count).map Duration.nanos =
      if count < p.maxRetries then
        some (min (p.baseDelay.nanos * min (2 ^ count.toNat) (2 ^ 32 - 1)) p.maxDelay.nanos)
      else none) ∧
    ((p.delay? count).map Duration.nanos = p.doubled? count ↔
      p.maxRetries ≤ count ∨ count < 32 ∨ p.baseDelay.nanos = 0 ∨
        p.maxDelay.nanos ≤ p.baseDelay.nanos * (2 ^ 32 - 1)) := by
  refine ⟨p.nanos_delay?_eq count, ?_⟩
  have hheld := two_pow_le_iff count
  rw [nanos_delay?_eq, doubled?]
  by_cases hcount : count < p.maxRetries
  · have hbudget : ¬ p.maxRetries ≤ count := UInt32.not_le.2 hcount
    rw [if_pos hcount, if_pos hcount, Option.some.injEq, or_iff_right hbudget]
    by_cases hword : count < 32
    · rw [Nat.min_eq_left (hheld.2 hword)]
      exact iff_of_true rfl (.inl hword)
    · have hmore : 2 ^ 32 - 1 < 2 ^ count.toNat := Nat.lt_of_not_le (mt hheld.1 hword)
      rw [Nat.min_eq_right (Nat.le_of_lt hmore), or_iff_right hword]
      exact min_mul_eq_iff hmore
  · rw [if_neg hcount, if_neg hcount]
    exact iff_of_true rfl (.inl (UInt32.not_lt.1 hcount))

end Policy

namespace Sample

/-- A policy of many short waits. -/
def brisk : Policy := ⟨34, .ofNanos 1, .ofSeconds 60⟩

/-- The waits stay as they are long before the longest wait is reached. -/
theorem doubling_stops :
    (brisk.delay? 32).map Duration.nanos = some 4294967295 ∧ brisk.doubled? 32 = some 4294967296 ∧
      (brisk.delay? 33).map Duration.nanos = some 4294967295 ∧
        brisk.doubled? 33 = some 8589934592 := by
  decide

end Sample

end TableTree
