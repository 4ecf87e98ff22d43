import Mathlib.Algebra.Order.Floor.Div
import TableTree.Proofs.Indifference

/-!
# How many requests an operation sends

Loops of a store are driven by what is answered: a request is tried again while it fails for now,
a batch is sent again while writes are left out of it, and a marker or a status is looked at again
while it is not what is waited for. Each loop has a count that it does not pass, so no backend keeps
a store at work for ever, whatever it answers.

Results:

* `Operation.SendsAtMost`: operations that send no more than so many requests; `SendsAtMost.bind`
  adds the bounds of one after the other.
* `Client.sendsAtMost_retry`: a request under a policy.
* `length_slices`: the number of slices of a list.
* `Client.sendsAtMost_writeAll`, `Settings.sendsAtMost_awaitMarker`,
  `Settings.sendsAtMost_awaitActiveFor`, `Settings.sendsAtMost_awaitDeletedFor`: a list of writes,
  the version marker, and a table to come and to go.
* `work_bounded`: the four of them against any backend.
-/

namespace TableTree

open Operation

variable {α β : Type}

/-! ## Operations with a bound -/

namespace Operation

/-- Whatever it is answered, the operation ends after at most `n` requests: its run comes to a
result, as every run does, and has exchanged no more than that. -/
def SendsAtMost (x : Operation α) (n : Nat) : Prop :=
  ∀ ⦃σ : Type⦄ (b : Backend σ) (m : Memory) (h : Host σ), (x.exchanges b m h).length ≤ n

theorem sendsAtMost_pure (a : α) : (pure a : Operation α).SendsAtMost 0 :=
  fun _ _ _ _ => Nat.le_refl 0

theorem sendsAtMost_throw (e : StoreError) : (throw e : Operation α).SendsAtMost 0 :=
  fun _ _ _ _ => Nat.le_refl 0

theorem sendsAtMost_perform {p : Program α} {n : Nat}
    (hp : ∀ ⦃σ : Type⦄ (b : Backend σ) (h : Host σ), (p.exchanges b h).length ≤ n) :
    (perform p).SendsAtMost n := by
  intro σ b m h
  rw [exchanges_perform]
  exact hp b h

theorem sendsAtMost_ask (r : Request) : (perform (.ask r)).SendsAtMost 1 :=
  sendsAtMost_perform fun _ _ _ => Nat.le_refl 1

theorem sendsAtMost_sleep (d : Duration) : (perform (.sleep d)).SendsAtMost 0 :=
  sendsAtMost_perform fun _ _ _ => Nat.le_refl 0

theorem sendsAtMost_notify (n : Notice) : (perform (.notify n)).SendsAtMost 0 :=
  sendsAtMost_perform fun _ _ _ => Nat.le_refl 0

namespace SendsAtMost

variable {x : Operation α} {n k : Nat}

theorem mono (hx : x.SendsAtMost n) (h : n ≤ k) : x.SendsAtMost k :=
  fun _ b m host => Nat.le_trans (hx b m host) h

/-- The bounds of two operations, one after the other, are added. -/
theorem bind {f : α → Operation β} (hx : x.SendsAtMost n) (hf : ∀ a, (f a).SendsAtMost k) :
    (x >>= f).SendsAtMost (n + k) := by
  intro σ b m h
  have hfirst := hx b m h
  rcases hrun : x.run b m h with ⟨e | a, m₁, h₁⟩
  · rw [exchanges_bind_of_error (by rw [hrun])]
    omega
  · rw [exchanges_bind_of_ok hrun, List.length_append]
    have hrest := hf a b m₁ h₁
    omega

theorem outcome (hx : x.SendsAtMost n) : (outcome x).SendsAtMost n := by
  intro σ b m h
  rw [exchanges_outcome]
  exact hx b m h

theorem forM {f : α → Operation Unit} (hf : ∀ a, (f a).SendsAtMost n) (xs : List α) :
    (xs.forM f).SendsAtMost (xs.length * n) := by
  induction xs with
  | nil => exact (sendsAtMost_pure ()).mono (Nat.zero_le _)
  | cons x xs ih =>
    rw [List.forM_eq_forM, List.forM_cons, List.length_cons, Nat.succ_mul, Nat.add_comm]
    exact (hf x).bind fun _ => ih

end SendsAtMost

end Operation

/-! ## Calling the service -/

namespace Client

variable {c : Client} {operation target : String} {idempotent : Bool} {r : Request}

theorem sendsAtMost_pause (d : Duration) : (c.pause operation target d).SendsAtMost 0 := by
  refine (sendsAtMost_sleep d).bind (k := 0) fun ending => ?_
  cases ending with
  | elapsed => exact sendsAtMost_pure ()
  | interrupted => exact (sendsAtMost_notify _).bind fun _ => sendsAtMost_throw _

theorem sendsAtMost_reportRetry (event : RetryEvent) : (c.reportRetry event).SendsAtMost 0 := by
  intro σ b m h
  rw [exchanges_reportRetry]
  exact Nat.le_refl 0

theorem sendsAtMost_backOff (count : UInt32) (left : Nat) :
    (c.backOff operation target count left).SendsAtMost 0 := by
  have hcount : countThrottle.SendsAtMost 0 := fun _ _ _ _ => Nat.le_refl 0
  unfold backOff
  refine hcount.bind (k := 0) fun _ => ?_
  split
  · exact sendsAtMost_throw _
  · exact (sendsAtMost_pause _).bind fun _ => sendsAtMost_pure _

/-- A request is sent once, and once more after each wait that is left. -/
theorem sendsAtMost_retryFrom (backoff : Backoff) :
    (c.retryFrom operation target idempotent (.ask r) backoff).SendsAtMost
      (backoff.remaining + 1) := by
  -- on the waits that are left
  induction hn : backoff.remaining using Nat.strongRecOn generalizing backoff with
  | ind n ih =>
    rw [retryFrom, Nat.add_comm]
    refine (sendsAtMost_ask r).bind fun result => ?_
    split
    · exact (sendsAtMost_pure _).mono (Nat.zero_le _)
    · dsimp only
      split
      · split
        · exact (sendsAtMost_throw _).mono (Nat.zero_le _)
        · rename_i duration backoff' hnext
          have hless := hn ▸ Backoff.remaining_lt_of_next? hnext
          have hpause : (c.pause operation target duration).SendsAtMost 0 := sendsAtMost_pause _
          have hrest := hpause.bind fun _ => ih _ hless backoff' rfl
          exact ((sendsAtMost_reportRetry _).bind fun _ => hrest).mono (by omega)
      · exact (sendsAtMost_throw _).mono (Nat.zero_le _)

theorem sendsAtMost_retry :
    (c.retry operation target idempotent (.ask r)).SendsAtMost (c.policy.maxRetries.toNat + 1) :=
  sendsAtMost_retryFrom _

/-! ## Writes in batches -/

/-- What is left of a batch goes out once under the policy after each wait that is left. The count
of the tries begins anew each time. -/
theorem sendsAtMost_resend (count : UInt32) (left : List Write) :
    (c.resend count left).SendsAtMost
      ((c.policy.maxRetries.toNat - count.toNat) * (c.policy.maxRetries.toNat + 1)) := by
  -- on the waits that the policy still allows
  induction hn : c.policy.maxRetries.toNat - count.toNat using Nat.strongRecOn
    generalizing count left with
  | ind n ih =>
    rw [resend]
    split
    · exact (sendsAtMost_pure ()).mono (Nat.zero_le _)
    · rw [← Nat.zero_add (n * _)]
      refine (sendsAtMost_backOff count left.length).bind fun hlt => ?_
      -- the wait is over, so it was one of those that were left
      have hlt' := UInt32.lt_iff_toNat_lt.1 hlt.down
      have hsucc := Backoff.toNat_succ_of_lt hlt.down
      obtain ⟨k, rfl⟩ : ∃ k, n = k + 1 := ⟨n - 1, by omega⟩
      rw [Nat.succ_mul, Nat.add_comm]
      exact sendsAtMost_retry.bind fun left' => ih k (by omega) _ _ (by omega)

/-- A slice goes out once, and what is left of it once after each wait of the policy. -/
theorem sendsAtMost_writeSlice (writes : List Write) :
    (c.writeSlice writes).SendsAtMost ((c.policy.maxRetries.toNat + 1) ^ 2) := by
  rw [Nat.pow_two, Nat.succ_mul, Nat.add_comm]
  exact sendsAtMost_retry.bind fun left => sendsAtMost_resend 0 left

end Client

/-- A list is cut into as many slices as it takes. -/
theorem length_slices (limit : Nat) (xs : List α) :
    (slices limit xs).length = xs.length ⌈/⌉ max limit 1 := by
  have hlimit : 0 < max limit 1 := by omega
  fun_induction slices limit xs with
  | case1 => simp_all
  | case2 xs hx ih =>
    have hlen := List.length_pos_iff.2 hx
    have hshift : xs.length + max limit 1 - 1 = xs.length - 1 + max limit 1 := by omega
    rw [List.length_cons, ih, List.length_drop, Nat.ceilDiv_eq_add_pred_div,
      Nat.ceilDiv_eq_add_pred_div, hshift, Nat.add_div_right _ hlimit]
    congr 1
    rcases Nat.lt_or_ge xs.length (max limit 1) with hlast | hmore
    · rw [Nat.div_eq_of_lt (by omega), Nat.div_eq_of_lt (by omega)]
    · rw [Nat.sub_add_cancel hmore]

/-- Each slice of a list of writes goes out within the bound of one. -/
theorem Client.sendsAtMost_writeAll (c : Client) (limit : Nat) (deletes : List Key)
    (puts : List Item) :
    (c.writeAll limit deletes puts).SendsAtMost
      (((deletes.length + puts.length) ⌈/⌉ max limit 1) * (c.policy.maxRetries.toNat + 1) ^ 2) := by
  have hslices := SendsAtMost.forM c.sendsAtMost_writeSlice
    (slices limit (deletes.map Write.delete ++ puts.map Write.put))
  rw [length_slices, List.length_append, List.length_map, List.length_map] at hslices
  exact hslices.bind fun _ => sendsAtMost_pure _

/-! ## Binding -/

namespace Settings

variable {s : Settings}

theorem sendsAtMost_describe : s.describe.SendsAtMost (s.maxRetries.toNat + 1) :=
  Client.sendsAtMost_retry

/-- The marker is read once under the policy, and once more after each wait that is left. -/
theorem sendsAtMost_awaitMarkerFrom (backoff : Backoff) :
    (s.awaitMarker backoff).SendsAtMost ((backoff.remaining + 1) * (s.maxRetries.toNat + 1)) := by
  -- on the waits that are left
  induction hn : backoff.remaining using Nat.strongRecOn generalizing backoff with
  | ind n ih =>
    rw [awaitMarker, Nat.succ_mul, Nat.add_comm]
    refine Client.sendsAtMost_retry.bind fun marker => ?_
    split
    · exact (sendsAtMost_pure _).mono (Nat.zero_le _)
    · split
      · exact (sendsAtMost_pure _).mono (Nat.zero_le _)
      · rename_i duration backoff' hnext
        have hless := hn ▸ Backoff.remaining_lt_of_next? hnext
        have hpause : (s.client.pause "getVersionMarker" s.tableName duration).SendsAtMost 0 :=
          Client.sendsAtMost_pause _
        have hrest := hpause.bind fun _ => ih _ hless backoff' rfl
        rw [Nat.zero_add] at hrest
        exact hrest.mono (Nat.mul_le_mul_right _ hless)

theorem sendsAtMost_awaitMarker :
    (s.awaitMarker ⟨s.policy, 0⟩).SendsAtMost ((s.maxRetries.toNat + 1) ^ 2) := by
  rw [Nat.pow_two]
  exact sendsAtMost_awaitMarkerFrom _

theorem sendsAtMost_awaitActiveFor (looks : Nat) :
    (s.awaitActiveFor looks).SendsAtMost (looks * (s.maxRetries.toNat + 1)) := by
  induction looks with
  | zero => exact (sendsAtMost_throw _).mono (Nat.zero_le _)
  | succ looks ih =>
    rw [Nat.succ_mul, Nat.add_comm (looks * _), awaitActiveFor]
    refine sendsAtMost_describe.bind fun description => ?_
    split
    · exact (sendsAtMost_pure _).mono (Nat.zero_le _)
    · exact (sendsAtMost_throw _).mono (Nat.zero_le _)
    · rw [← Nat.zero_add (looks * _)]
      exact (Client.sendsAtMost_pause _).bind fun _ => ih

theorem sendsAtMost_awaitDeletedFor (looks : Nat) :
    (s.awaitDeletedFor looks).SendsAtMost (looks * (s.maxRetries.toNat + 1)) := by
  induction looks with
  | zero => exact (sendsAtMost_throw _).mono (Nat.zero_le _)
  | succ looks ih =>
    rw [Nat.succ_mul, Nat.add_comm (looks * _), awaitDeletedFor]
    refine sendsAtMost_describe.outcome.bind fun result => ?_
    split
    · rw [← Nat.zero_add (looks * _)]
      exact (Client.sendsAtMost_pause _).bind fun _ => ih
    · split
      · exact (sendsAtMost_pure _).mono (Nat.zero_le _)
      · exact (sendsAtMost_throw _).mono (Nat.zero_le _)

end Settings

/-! ## The bounds together -/

/-- **No backend keeps a store at work for ever.** Whatever it is answered, a list of writes is over
after as many requests as there are slices, times the square of the largest number of tries; reading
the version marker after that square; and waiting for a table to come or to go after the largest
number of looks, times the largest number of tries. -/
theorem work_bounded (c : Client) (limit : Nat) (deletes : List Key) (puts : List Item)
    (s : Settings) :
    (c.writeAll limit deletes puts).SendsAtMost
        (((deletes.length + puts.length) ⌈/⌉ max limit 1) * (c.policy.maxRetries.toNat + 1) ^ 2) ∧
      (s.awaitMarker ⟨s.policy, 0⟩).SendsAtMost ((s.maxRetries.toNat + 1) ^ 2) ∧
      s.awaitActive.SendsAtMost (s.tableWaitMaxPolls.toNat * (s.maxRetries.toNat + 1)) ∧
      s.awaitDeleted.SendsAtMost (s.tableWaitMaxPolls.toNat * (s.maxRetries.toNat + 1)) :=
  ⟨c.sendsAtMost_writeAll limit deletes puts, s.sendsAtMost_awaitMarker,
    s.sendsAtMost_awaitActiveFor _, s.sendsAtMost_awaitDeletedFor _⟩

/-- A backend that takes a batch at every fourth request only: it refuses every other one for its
rate, and of the rest it leaves every other one out. -/
def Backend.reluctant : Backend Nat where
  answer
    | .batchWrite _ writes, n =>
      (if n % 2 = 0 then .error (.throttled "slow") else .ok (if n % 4 = 1 then writes else []),
        n + 1)
    | _, n => (.error (.validation "unknown request"), n)

/-- The bound for writes is reached. -/
example :
    ((Client.writeAll ⟨⟨1, .ofMillis 1, .ofMillis 1⟩, "meta", "local", 5⟩ 2
        [⟨"/b", "d"⟩, ⟨"/b", "e"⟩, ⟨"/b", "f"⟩] []).exchanges .reluctant {}
      { state := 0, now := 5 }).length = (3 ⌈/⌉ max 2 1) * (1 + 1) ^ 2 := by
  decide +kernel

end TableTree
