import TableTree.Time.Duration
/-!
# Backoff

A request that fails is tried again after a wait, and each wait is twice the one before, up to a
longest wait and a largest number of waits.

Results:

* `Policy.delay?`: the wait before a retry; `Policy.delay?_isSome_iff`: there is one within the
  budget.
* `Policy.nanos_delay?`: its length in nanoseconds.
* `Backoff.next?`: a backoff hands out the waits of its policy in order;
  `Backoff.remaining_lt_of_next?`: one less is left after each.
-/

namespace TableTree

/-- How often and how patiently a request is tried again. -/
structure Policy where
  maxRetries : UInt32
  baseDelay : Duration
  maxDelay : Duration
deriving DecidableEq

namespace Policy

/-- The factor of a wait: two to the number of waits before it, held in 32 bits. From 32 waits on it
stays at the largest number of 32 bits. -/
def factor (count : UInt32) : Nat :=
  if count < 32 then 1 <<< count.toNat else UInt32.size - 1

/-- The wait before the retry that `count` others came before; none when the budget is spent. -/
def delay? (p : Policy) (count : UInt32) : Option Duration :=
  if count < p.maxRetries then some (min (p.baseDelay.scale (factor count)) p.maxDelay) else none

/-- The printed form of a policy. -/
def text (p : Policy) : String :=
  s!"ExponentialBackoff(maxRetries={p.maxRetries}, sleepTime={p.baseDelay.text}, " ++
    s!"maxSleepTime={p.maxDelay.text})"

theorem delay?_isSome_iff {p : Policy} {count : UInt32} :
    (p.delay? count).isSome ↔ count < p.maxRetries := by
  unfold delay?
  split <;> simp_all

theorem nanos_delay? {p : Policy} {count : UInt32} {d : Duration} (h : p.delay? count = some d) :
    d.nanos = min (min (p.baseDelay.nanos * factor count) maxNanos) p.maxDelay.nanos := by
  unfold delay? at h
  split at h
  · cases h
    simp
  · cases h

end Policy

/-- A policy with the number of waits handed out so far. -/
structure Backoff where
  policy : Policy
  attempts : UInt32 := 0

namespace Backoff

/-- The next wait and what comes after it; none when the budget is spent. -/
def next? (b : Backoff) : Option (Duration × Backoff) :=
  (b.policy.delay? b.attempts).map fun wait => (wait, { b with attempts := b.attempts + 1 })

/-- Whether the budget is spent. -/
def isExhausted (b : Backoff) : Bool := b.policy.maxRetries ≤ b.attempts

/-- The number of waits left. -/
def remaining (b : Backoff) : Nat := b.policy.maxRetries.toNat - b.attempts.toNat

/-- A count below a bound can be raised by one within 32 bits. -/
theorem toNat_succ_of_lt {count bound : UInt32} (h : count < bound) :
    (count + 1).toNat = count.toNat + 1 := by
  have hb := bound.toNat_lt
  rw [UInt32.lt_iff_toNat_lt] at h
  rw [UInt32.toNat_add]
  simp only [UInt32.reduceToNat]
  omega

theorem next?_eq_some_iff {b b' : Backoff} {wait : Duration} :
    b.next? = some (wait, b') ↔
      b.policy.delay? b.attempts = some wait ∧ b' = { b with attempts := b.attempts + 1 } := by
  unfold next?
  cases b.policy.delay? b.attempts with
  | none => simp
  | some d => simp [eq_comm]

theorem remaining_lt_of_next? {b b' : Backoff} {wait : Duration}
    (h : b.next? = some (wait, b')) : b'.remaining < b.remaining := by
  obtain ⟨hd, rfl⟩ := next?_eq_some_iff.1 h
  have hlt : b.attempts < b.policy.maxRetries :=
    Policy.delay?_isSome_iff.1 (by rw [hd]; rfl)
  have hs := toNat_succ_of_lt hlt
  rw [UInt32.lt_iff_toNat_lt] at hlt
  simp only [remaining]
  omega

end Backoff

end TableTree
