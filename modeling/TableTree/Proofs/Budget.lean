import TableTree.Proofs.Doubling
import TableTree.Proofs.RetryCourse

/-!
# The budget of a backoff

A backoff hands out the waits of its policy one after the other. A call that gets a wait raises the
count, a call that gets none leaves the backoff as it is, so after any number of calls the count is
that number or the budget, whichever is less. The waits grow: the factor of a wait does, and neither
the longest duration nor the longest wait cuts off a shorter one before a longer one.

Results:

* `Backoff.after`, `Backoff.wait?`: a backoff after some calls, and what a call gets.
* `Backoff.after_fresh`: a new backoff after some calls.
* `Backoff.nanos_wait?_fresh`: the waits of a new backoff in nanoseconds.
* `Backoff.hands_out_budget`: how many waits a new backoff hands out, and how long they are.
-/

namespace TableTree

namespace Backoff

/-- The backoff after so many calls for a wait. -/
def after (b : Backoff) : Nat → Backoff
  | 0 => b
  | n + 1 =>
    match (b.after n).next? with
    | some (_, b') => b'
    | none => b.after n

/-- What the `n`-th call for a wait gets, counted from zero. -/
def wait? (b : Backoff) (n : Nat) : Option Duration := (b.after n).next?.map Prod.fst

theorem map_fst_next? (b : Backoff) : b.next?.map Prod.fst = b.policy.delay? b.attempts := by
  rw [next?]
  cases b.policy.delay? b.attempts with
  | none => rfl
  | some d => rfl

/-- There is a next wait as long as the count is within the budget. -/
theorem next?_eq_none_iff {b : Backoff} : b.next? = none ↔ b.policy.maxRetries ≤ b.attempts := by
  rw [next?, Option.map_eq_none_iff, ← Option.not_isSome_iff_eq_none, Policy.delay?_isSome_iff,
    UInt32.not_lt]

/-- A budget is spent when there is no next wait. -/
theorem isExhausted_iff {b : Backoff} : b.isExhausted = true ↔ b.next? = none := by
  rw [next?_eq_none_iff, isExhausted, decide_eq_true_iff]

/-- The count of a new backoff is raised by each call until the budget is spent. -/
theorem after_fresh (p : Policy) (n : Nat) :
    (⟨p, 0⟩ : Backoff).after n = ⟨p, .ofNat (min n p.maxRetries.toNat)⟩ := by
  induction n with
  | zero =>
    rw [Nat.zero_min]
    rfl
  | succ n ih =>
    rw [after, ih]
    rcases Nat.lt_or_ge n p.maxRetries.toNat with hleft | hspent
    · obtain ⟨d, hd⟩ := Client.exists_delay?_eq p hleft
      rw [Nat.min_eq_left (Nat.le_of_lt hleft), Nat.min_eq_left hleft, Client.next?_ofNat hleft hd]
    · have hnone : (⟨p, p.maxRetries⟩ : Backoff).next? = none :=
        next?_eq_none_iff.2 (UInt32.le_refl _)
      rw [Nat.min_eq_right hspent, Nat.min_eq_right (Nat.le_succ_of_le hspent), UInt32.ofNat_toNat,
        hnone]

theorem attempts_after_fresh (p : Policy) (n : Nat) :
    ((⟨p, 0⟩ : Backoff).after n).attempts.toNat = min n p.maxRetries.toNat := by
  rw [after_fresh]
  exact UInt32.toNat_ofNat_of_lt
    (Nat.lt_of_le_of_lt (Nat.min_le_right ..) p.maxRetries.toNat_lt)

/-- The waits of a new backoff in nanoseconds. -/
theorem nanos_wait?_fresh (p : Policy) (n : Nat) :
    ((⟨p, 0⟩ : Backoff).wait? n).map Duration.nanos =
      if n < p.maxRetries.toNat then
        some (min (p.baseDelay.nanos * min (2 ^ n) (2 ^ 32 - 1)) p.maxDelay.nanos)
      else none := by
  have hcount := attempts_after_fresh p n
  have hpolicy : ((⟨p, 0⟩ : Backoff).after n).policy = p := by rw [after_fresh]
  have hwithin : ((⟨p, 0⟩ : Backoff).after n).attempts < p.maxRetries ↔ n < p.maxRetries.toNat := by
    rw [UInt32.lt_iff_toNat_lt, hcount]
    omega
  rw [wait?, map_fst_next?, hpolicy, Policy.nanos_delay?_eq]
  by_cases hleft : n < p.maxRetries.toNat
  · rw [if_pos (hwithin.2 hleft), if_pos hleft, hcount, Nat.min_eq_left (Nat.le_of_lt hleft)]
  · rw [if_neg (mt hwithin.1 hleft), if_neg hleft]

/-- A call gets a wait of so many nanoseconds if the budget is not spent before it. -/
theorem wait?_fresh_eq_some_iff {p : Policy} {n : Nat} {d : Duration} :
    (⟨p, 0⟩ : Backoff).wait? n = some d ↔ n < p.maxRetries.toNat ∧
      d.nanos = min (p.baseDelay.nanos * min (2 ^ n) (2 ^ 32 - 1)) p.maxDelay.nanos := by
  have hnanos := nanos_wait?_fresh p n
  constructor
  · intro hd
    rw [hd, Option.map_some] at hnanos
    split at hnanos
    · rename_i hleft
      exact ⟨hleft, Option.some.inj hnanos⟩
    · cases hnanos
  · rintro ⟨hleft, hd⟩
    rw [if_pos hleft, ← hd] at hnanos
    obtain ⟨d', hd', heq⟩ := Option.map_eq_some_iff.1 hnanos
    rw [hd', Duration.ext heq]

/-- **The budget of a backoff.** Of the calls for a wait on a new backoff, exactly the first get one,
as many as the policy has retries. From then on the count stays at that number. No wait is longer than
the longest one or than a later wait, and the first is the base delay or the longest wait if that is
shorter. The budget of any backoff is spent exactly if a call gets nothing. -/
theorem hands_out_budget (p : Policy) (n : Nat) :
    let fresh : Backoff := ⟨p, 0⟩
    ((fresh.wait? n).isSome ↔ n < p.maxRetries.toNat) ∧
    (fresh.after n).policy = p ∧ (fresh.after n).attempts.toNat = min n p.maxRetries.toNat ∧
    (∀ d ∈ fresh.wait? n, d ≤ p.maxDelay ∧ ∀ later ≥ n, ∀ d' ∈ fresh.wait? later, d ≤ d') ∧
    fresh.wait? 0 = (if p.maxRetries = 0 then none else some (min p.baseDelay p.maxDelay)) ∧
    ∀ b : Backoff, b.isExhausted = true ↔ b.next? = none := by
  intro fresh
  refine ⟨?_, by rw [after_fresh], attempts_after_fresh p n, fun d hd => ⟨?_, ?_⟩, ?_,
    fun b => isExhausted_iff⟩
  · rw [← Option.isSome_map (f := Duration.nanos), nanos_wait?_fresh]
    split <;> simp_all
  · rw [Duration.le_iff, (wait?_fresh_eq_some_iff.1 hd).2]
    exact Nat.min_le_right ..
  · intro later hlater d' hd'
    rw [Duration.le_iff, (wait?_fresh_eq_some_iff.1 hd).2, (wait?_fresh_eq_some_iff.1 hd').2]
    have hpow : 2 ^ n ≤ 2 ^ later := Nat.pow_le_pow_right (by decide) hlater
    have hfactor : min (2 ^ n) (2 ^ 32 - 1) ≤ min (2 ^ later) (2 ^ 32 - 1) := by omega
    have hscaled := Nat.mul_le_mul_left p.baseDelay.nanos hfactor
    omega
  · split
    · rename_i hnone
      exact Option.map_eq_none_iff.2 (next?_eq_none_iff.2 (hnone ▸ UInt32.zero_le))
    · rename_i hsome
      have hleft : 0 < p.maxRetries.toNat := by
        rw [Nat.pos_iff_ne_zero]
        exact fun h => hsome (UInt32.toNat_inj.1 h)
      refine wait?_fresh_eq_some_iff.2 ⟨hleft, ?_⟩
      have hone : min (2 ^ 0) (2 ^ 32 - 1) = 1 := by decide
      rw [Duration.nanos_min, hone, Nat.mul_one]

end Backoff

end TableTree
