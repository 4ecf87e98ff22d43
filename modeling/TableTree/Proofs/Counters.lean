import TableTree.Proofs.Exhaustion
import TableTree.Proofs.Undisturbed.Service

/-!
# Counts of 32 bits

A client counts three things in 32 bits: the failures of a request, the waits that a backoff has
handed out, and how often the rest of a batch was sent again. A count that is raised beyond the
largest number of 32 bits starts at zero again. To tell whether one ever does, each loop stands here
a second time, with guards: it is given up where a guarded count cannot be raised. If the guards
change nothing, no guarded count starts again in any run.

A backoff and the rest of a batch raise their counts below the budget only, so theirs never do. The
failures of a request are counted before the budget is looked at. With the largest of all budgets
the last failure is one too many, and the request reports that it was tried zero times.

Results:

* `Counter.raise?`, `Client.guardedRetry`, `Client.guardedWriteSlice`: counts and loops with guards.
* `Counter.raise?_eq_some_iff`: a guarded count that is raised is the next number.
* `Client.guardedRetryFrom_eq`, `Client.guardedWriteSlice_eq`: guards that change nothing.
* `Client.TriedOn.givesUp`: the largest budget, used up with guards.
* `Client.counts_exactly`: which counts are right under which budget.
* `Sample.failures_start_again`: a request that is sent 4294967296 times.
-/

namespace TableTree

open Operation

variable {σ α : Type}

/-! ## Loops with guards -/

/-- What a client counts in 32 bits. -/
inductive Counter
  /-- the failures of a request -/
  | attempts
  /-- the waits that a backoff has handed out -/
  | waits
  /-- how often the rest of a batch was sent again -/
  | resends
deriving DecidableEq

/-- A count raised by one. If the counter is guarded, the largest number of 32 bits cannot be. -/
def Counter.raise? (guards : Counter → Bool) (k : Counter) (n : UInt32) : Option UInt32 :=
  if guards k = true ∧ n.toNat = UInt32.size - 1 then none else some (n + 1)

/-- An operation that is given up when a guarded count cannot be raised. -/
abbrev Guarded (α : Type) : Type := OptionT Operation α

/-- A value if there is one. -/
def Guarded.ofOption (a : Option α) : Guarded α := OptionT.mk (pure a)

@[simp] theorem Guarded.ofOption_some (a : α) : Guarded.ofOption (some a) = pure a := rfl

variable (guards : Counter → Bool)

/-- The next wait of a backoff, its count being raised if it may be. -/
def Backoff.guardedNext (b : Backoff) : Option (Option (Duration × Backoff)) :=
  match b.policy.delay? b.attempts with
  | none => some none
  | some wait =>
    (Counter.waits.raise? guards b.attempts).map fun n => some (wait, { b with attempts := n })

theorem Counter.eq_of_raise? {guards : Counter → Bool} {k : Counter} {n n' : UInt32}
    (h : k.raise? guards n = some n') : n' = n + 1 := by
  unfold raise? at h
  split at h
  · cases h
  · exact (Option.some.inj h).symm

theorem Backoff.next?_of_guardedNext {guards : Counter → Bool} {b : Backoff}
    {next : Option (Duration × Backoff)} (h : b.guardedNext guards = some next) :
    b.next? = next := by
  unfold guardedNext at h
  rw [next?]
  split at h
  · rename_i hnone
    rw [hnone]
    exact Option.some.inj h
  · rename_i wait hwait
    obtain ⟨n, hn, rfl⟩ := Option.map_eq_some_iff.1 h
    rw [hwait, Counter.eq_of_raise? hn]
    rfl

namespace Client

/-- A request under the policy, when the waits of `backoff` are left. -/
def guardedRetryFrom (c : Client) (operation target : String) (idempotent : Bool)
    (attempt : Program (Except ServiceError α)) (backoff : Backoff) : Guarded α := do
  match ← OptionT.lift (perform attempt) with
  | .ok a => pure a
  | .error e =>
    let attempts ← Guarded.ofOption (Counter.attempts.raise? guards backoff.attempts)
    if shouldRetry e idempotent then
      match _h : backoff.guardedNext guards with
      | none => failure
      | some none =>
        OptionT.lift (throw (.retriesExhausted (c.site operation target) attempts e.isThrottle
          e.message))
      | some (some (duration, backoff')) =>
        OptionT.lift (c.between operation target idempotent e attempts duration)
        c.guardedRetryFrom operation target idempotent attempt backoff'
    else OptionT.lift (throw (.backend (c.site operation target) e))
termination_by backoff.remaining
decreasing_by exact Backoff.remaining_lt_of_next? (Backoff.next?_of_guardedNext _h)

/-- A request under the policy of the client. -/
def guardedRetry (c : Client) (operation target : String) (idempotent : Bool)
    (attempt : Program (Except ServiceError α)) : Guarded α :=
  c.guardedRetryFrom guards operation target idempotent attempt ⟨c.policy, 0⟩

/-- One batch under the policy. -/
def guardedSendBatch (c : Client) (writes : List Write) : Guarded (List Write) :=
  c.guardedRetry guards "batchWrite" c.table true (.ask (.batchWrite c.table writes))

/-- What was left out of a batch, until nothing is. -/
def guardedResend (c : Client) (count : UInt32) (left : List Write) : Guarded Unit :=
  if left = [] then pure ()
  else do
    let ⟨_h⟩ ← OptionT.lift (c.backOff "batchWrite" c.table count left.length)
    match _hcount : Counter.resends.raise? guards count with
    | none => failure
    | some count' =>
      let left ← c.guardedSendBatch guards left
      c.guardedResend count' left
termination_by c.policy.maxRetries.toNat - count.toNat
decreasing_by
  rw [Counter.eq_of_raise? _hcount, Backoff.toNat_succ_of_lt _h]
  rw [UInt32.lt_iff_toNat_lt] at _h
  omega

/-- One slice and whatever is left out of it. -/
def guardedWriteSlice (c : Client) (writes : List Write) : Guarded Unit := do
  c.guardedResend guards 0 (← c.guardedSendBatch guards writes)

end Client

/-! ## Counts that can be raised -/

namespace Counter

variable {guards} {k : Counter} {n n' : UInt32}

/-- A count that is raised while it is guarded is the next number. -/
theorem raise?_eq_some_iff (hk : guards k = true) :
    k.raise? guards n = some n' ↔ n'.toNat = n.toNat + 1 := by
  have hn := n.toNat_lt
  have hn' := n'.toNat_lt
  unfold raise?
  split
  · simp only [reduceCtorEq, false_iff]
    simp only [UInt32.size] at *
    omega
  · rename_i hbelow
    rw [Option.some.injEq, ← UInt32.toNat_inj, UInt32.toNat_add, eq_comm]
    simp only [hk, true_and, UInt32.size, UInt32.reduceToNat] at *
    omega

theorem raise?_of_not_guarded (hk : ¬ guards k = true) (n : UInt32) :
    k.raise? guards n = some (n + 1) :=
  if_neg fun h => hk h.1

/-- A count below a bound can be raised. -/
theorem raise?_of_lt {bound : UInt32} (h : n < bound) : k.raise? guards n = some (n + 1) := by
  refine if_neg fun hlargest => ?_
  have hbound := bound.toNat_lt
  rw [UInt32.lt_iff_toNat_lt] at h
  simp only [UInt32.size] at *
  omega

end Counter

/-- A backoff hands out a wait only below its budget, so it can always raise its count. -/
theorem Backoff.guardedNext_eq (b : Backoff) : b.guardedNext guards = some b.next? := by
  unfold guardedNext
  cases hwait : b.policy.delay? b.attempts with
  | none => rw [next?, hwait]; rfl
  | some wait =>
    have hlt : b.attempts < b.policy.maxRetries := Policy.delay?_isSome_iff.1 (by rw [hwait]; rfl)
    rw [next?, hwait]
    dsimp only
    rw [Counter.raise?_of_lt hlt]
    rfl

namespace Client

variable {guards} {c : Client} {operation target : String} {idempotent : Bool}
  {attempt : Program (Except ServiceError α)}

theorem lift_bind {β : Type} (x : Operation α) (f : α → Operation β) :
    OptionT.lift (x >>= f) = (OptionT.lift x >>= fun a => OptionT.lift (f a) : Guarded β) := by
  apply OptionT.ext
  simp

/-- A request under the policy goes as it does without guards, if the budget is below the largest
number or the failures are not guarded. -/
theorem guardedRetryFrom_eq
    (hguards : guards .attempts = true → c.policy.maxRetries.toNat < UInt32.size - 1)
    {backoff : Backoff} (hpolicy : backoff.policy = c.policy)
    (hle : backoff.attempts ≤ c.policy.maxRetries) :
    c.guardedRetryFrom guards operation target idempotent attempt backoff =
      OptionT.lift (c.retryFrom operation target idempotent attempt backoff) := by
  -- on the waits that are left
  induction hn : backoff.remaining using Nat.strongRecOn generalizing backoff with
  | ind n ih =>
    have hraise : Counter.attempts.raise? guards backoff.attempts =
        some (backoff.attempts + 1) := by
      by_cases hk : guards .attempts = true
      · have hbudget : c.policy.maxRetries < (4294967295 : UInt32) :=
          UInt32.lt_iff_toNat_lt.2 (hguards hk)
        exact Counter.raise?_of_lt (UInt32.lt_of_le_of_lt hle hbudget)
      · exact Counter.raise?_of_not_guarded hk _
    rw [guardedRetryFrom, retryFrom_eq, lift_bind]
    congr 1
    funext result
    cases result with
    | ok a => rfl
    | error e =>
      dsimp only
      rw [hraise, Guarded.ofOption_some, pure_bind]
      split
      · rename_i hretry
        split
        · rename_i hnone
          rw [Backoff.guardedNext_eq] at hnone
          cases hnone
        · rename_i hspent
          rw [Backoff.guardedNext_eq, Option.some.injEq] at hspent
          rw [afterAttempt_of_exhausted _ _ _ _ hretry hspent]
          rfl
        · rename_i duration backoff' hnext
          rw [Backoff.guardedNext_eq, Option.some.injEq] at hnext
          obtain ⟨hpolicy', -, hle'⟩ := Backoff.toNat_attempts_of_next? hnext
          rw [hpolicy] at hpolicy' hle'
          rw [afterAttempt_of_next? hretry hnext, lift_bind,
            ih _ (hn ▸ Backoff.remaining_lt_of_next? hnext) hpolicy' hle' rfl]
      · rename_i hretry
        rw [afterAttempt, if_neg hretry]

theorem guardedRetry_eq
    (hguards : guards .attempts = true → c.policy.maxRetries.toNat < UInt32.size - 1) :
    c.guardedRetry guards operation target idempotent attempt =
      OptionT.lift (c.retry operation target idempotent attempt) :=
  guardedRetryFrom_eq hguards rfl UInt32.zero_le

/-- The rest of a batch is sent again only below the budget, so its count can be raised. -/
theorem guardedResend_eq
    (hguards : guards .attempts = true → c.policy.maxRetries.toNat < UInt32.size - 1)
    (count : UInt32) (left : List Write) :
    c.guardedResend guards count left = OptionT.lift (c.resend count left) := by
  -- on the waits that the policy still allows
  induction hn : c.policy.maxRetries.toNat - count.toNat using Nat.strongRecOn
    generalizing count left with
  | ind n ih =>
    rw [guardedResend, resend]
    split
    · rfl
    · rw [lift_bind]
      congr 1
      funext hbelow
      obtain ⟨hlt⟩ := hbelow
      dsimp only
      split
      · rename_i hnone
        rw [Counter.raise?_of_lt hlt] at hnone
        cases hnone
      · rename_i count' hcount
        obtain rfl := Counter.eq_of_raise? hcount
        have hsucc := Backoff.toNat_succ_of_lt hlt
        rw [UInt32.lt_iff_toNat_lt] at hlt
        rw [lift_bind, guardedSendBatch, guardedRetry_eq hguards]
        congr 1
        funext left'
        exact ih _ (by omega) _ _ rfl

theorem guardedWriteSlice_eq
    (hguards : guards .attempts = true → c.policy.maxRetries.toNat < UInt32.size - 1)
    (writes : List Write) :
    c.guardedWriteSlice guards writes = OptionT.lift (c.writeSlice writes) := by
  rw [guardedWriteSlice, guardedSendBatch, guardedRetry_eq hguards, writeSlice, lift_bind]
  congr 1
  funext left
  exact guardedResend_eq hguards 0 left

end Client

/-! ## The count that cannot be raised -/

/-- The operation is given up. -/
def Guarded.GivesUp (x : Guarded α) (b : Backend σ) (m : Memory) (h : Host σ) : Prop :=
  (Operation.run b x.run m h).outcome = .ok none

namespace Client

variable {c : Client} {operation target : String} {idempotent : Bool}
  {attempt : Program (Except ServiceError α)} {b : Backend σ}

theorem givesUp_lift_bind {β : Type} {x : Operation α} {f : α → Guarded β} {a : α}
    {m m' : Memory} {h h' : Host σ} (hx : x.run b m h = ⟨.ok a, m', h'⟩) :
    (OptionT.lift x >>= f : Guarded β).GivesUp b m h ↔ (f a).GivesUp b m' h' := by
  have hrun : (OptionT.lift x >>= f : Guarded β).run = x >>= fun a => (f a).run := by
    simp
  rw [Guarded.GivesUp, hrun, run_bind, hx]
  rfl

/-- With the largest budget, a request that has used it up is given up if its failures are guarded:
the last of them cannot be counted. -/
theorem TriedOn.givesUp {backoff : Backoff} {m : Memory} {h : Host σ} {hosts : List (Host σ)}
    {result : Run σ α} {guards : Counter → Bool}
    (ht : c.TriedOn operation target idempotent attempt b backoff m h hosts result)
    (hk : guards .attempts = true)
    (hlargest : backoff.policy.maxRetries.toNat = UInt32.size - 1) {site : Site} {attempts : UInt32}
    {throttled : Bool} {text : String}
    (hresult : result.outcome = .error (.retriesExhausted site attempts throttled text)) :
    (c.guardedRetryFrom guards operation target idempotent attempt backoff).GivesUp b m h := by
  induction ht with
  | granted hrun => cases hresult
  | refused hrun hretry => cases hresult
  | @spent backoff _ _ _ _ hrun hretry hnext =>
    have hfull : Counter.attempts.raise? guards backoff.attempts = none := by
      have hbound := backoff.attempts.toNat_lt
      rw [Backoff.next?_eq_none_iff, UInt32.le_iff_toNat_le, hlargest] at hnext
      simp only [UInt32.size] at hnext
      exact if_pos ⟨hk, by simp only [UInt32.size]; omega⟩
    rw [guardedRetryFrom, givesUp_lift_bind (run_perform ..), hrun]
    dsimp only
    rw [hfull]
    rfl
  | interrupted hrun hretry hnext hbetween => cases hresult
  | @again backoff _ _ _ _ _ _ _ _ _ _ hrun hretry hnext hbetween _ ih =>
    obtain ⟨hpolicy, -, -⟩ := Backoff.toNat_attempts_of_next? hnext
    have hrest := ih (by rwa [hpolicy]) hresult
    have hlt : backoff.attempts < backoff.policy.maxRetries := by
      rw [← UInt32.not_le, ← Backoff.next?_eq_none_iff, hnext]
      exact nofun
    rw [guardedRetryFrom, givesUp_lift_bind (run_perform ..), hrun]
    dsimp only
    rw [Counter.raise?_of_lt hlt, Guarded.ofOption_some, pure_bind, if_pos hretry]
    split
    · rfl
    · rename_i hnone
      rw [Backoff.guardedNext_eq, hnext] at hnone
      cases hnone
    · rename_i hsome
      rw [Backoff.guardedNext_eq, hnext] at hsome
      cases hsome
      rwa [givesUp_lift_bind hbetween]

end Client

/-- A backend that answers each request with the same failure. -/
def Backend.refusing (e : ServiceError) : Backend Unit := ⟨fun _ s => (.error e, s)⟩

namespace Client

/-- Without guards nothing is given up. -/
theorem not_givesUp_lift (x : Operation α) (b : Backend σ) (m : Memory) (h : Host σ) :
    ¬ Guarded.GivesUp (OptionT.lift x) b m h := by
  have hlift : OptionT.run (OptionT.lift x) = some <$> x := by
    rw [map_eq_pure_bind]
    rfl
  rw [Guarded.GivesUp, hlift, run_map]
  rcases (x.run b m h).outcome with _ | _ <;> exact nofun

/-- With the largest budget, guards on the failures of a request do change something. -/
theorem guardedRetry_ne {guards : Counter → Bool} {c : Client} (hk : guards .attempts = true)
    (hlargest : c.policy.maxRetries.toNat = UInt32.size - 1) :
    c.guardedRetry guards "" "" true (.ask (.scan "" none)) ≠
      OptionT.lift (c.retry "" "" true (.ask (.scan "" none))) := by
  intro heq
  let b : Backend Unit := .refusing (.throttled "")
  let host : Host Unit := { state := (), now := 0 }
  have hexhausted := c.outcome_retry_of_failing "" "" true b {} (h := host)
    (Program.onlySends_ask (.scan "" none)) rfl rfl fun _ _ => rfl
  obtain ⟨hosts, htried⟩ :=
    exists_triedOn c "" "" true (.ask (.scan "" none)) b ⟨c.policy, 0⟩ {} host
  have hgiven : (c.guardedRetry guards "" "" true (.ask (.scan "" none))).GivesUp b {} host :=
    htried.givesUp hk hlargest hexhausted
  rw [heq] at hgiven
  exact not_givesUp_lift _ b {} host hgiven

/-- **The counts of a client.** Guards change nothing in what a backoff hands out. They change
nothing in the requests and batches of a client, whatever is answered, exactly if they leave the
failures of a request alone or the budget is below the largest number of 32 bits; so the repetitions
of a batch are always counted right. A request sends what the runs of its attempt send. If it has
used up its budget, the attempt was run once more than the budget, and the number of attempts that it
reports is this one exactly if the budget is below the largest number. -/
theorem counts_exactly (c : Client) :
    (∀ (guards : Counter → Bool) (backoff : Backoff),
      backoff.guardedNext guards = some backoff.next?) ∧
    (∀ guards : Counter → Bool,
      ((∀ (α : Type) (operation target : String) (idempotent : Bool)
          (attempt : Program (Except ServiceError α)),
          c.guardedRetry guards operation target idempotent attempt =
            OptionT.lift (c.retry operation target idempotent attempt)) ∧
        ∀ writes, c.guardedWriteSlice guards writes = OptionT.lift (c.writeSlice writes)) ↔
      (guards .attempts = true → c.policy.maxRetries.toNat < UInt32.size - 1)) ∧
    ∀ (α σ : Type) (operation target : String) (idempotent : Bool)
      (attempt : Program (Except ServiceError α)) (b : Backend σ) (m : Memory) (h : Host σ),
      let request := c.retry operation target idempotent attempt
      ∃ hosts, c.TriedOn operation target idempotent attempt b ⟨c.policy, 0⟩ m h hosts
          (request.run b m h) ∧
        request.exchanges b m h = hosts.flatMap (attempt.exchanges b) ∧
        ∀ site attempts throttled text,
          (request.run b m h).outcome = .error (.retriesExhausted site attempts throttled text) →
            hosts.length = c.policy.maxRetries.toNat + 1 ∧
            (attempts.toNat = hosts.length ↔ c.policy.maxRetries.toNat < UInt32.size - 1) := by
  have hbound := c.policy.maxRetries.toNat_lt
  refine ⟨Backoff.guardedNext_eq, fun guards => ⟨fun ⟨hretry, _⟩ hk => ?_, fun hguards => ⟨?_, ?_⟩⟩,
    ?_⟩
  · by_contra hlargest
    refine guardedRetry_ne hk ?_ (hretry ..)
    simp only [UInt32.size] at *
    omega
  · exact fun _ _ _ _ _ => guardedRetry_eq hguards
  · exact guardedWriteSlice_eq hguards
  · intro α σ operation target idempotent attempt b m h request
    obtain ⟨hosts, htried⟩ :=
      c.exists_triedOn operation target idempotent attempt b ⟨c.policy, 0⟩ m h
    refine ⟨hosts, htried, htried.exchanges_eq, fun site attempts throttled text hrun => ?_⟩
    obtain ⟨hattempts, hlength⟩ := htried.exhausted UInt32.zero_le hrun
    have hruns : hosts.length = c.policy.maxRetries.toNat + 1 := hlength
    refine ⟨hruns, ?_⟩
    rw [hruns, hattempts, UInt32.toNat_add]
    simp only [UInt32.size, UInt32.reduceToNat] at *
    omega

end Client

/-! ## The largest budget -/

namespace Service

/-- What a throttled request is answered. -/
def tooFast : ServiceError :=
  .throttled "the level of configured provisioned throughput for the table was exceeded"

theorem unlessFault_of_throttles {s : Service} (hs : 0 < s.plan.throttles)
    (serve : Service → Except ServiceError α × Service) :
    (s.unlessFault serve).1 = .error tooFast ∧
      (s.unlessFault serve).2.plan.throttles = s.plan.throttles - 1 := by
  simp [unlessFault, takeFault, hs, tooFast]

/-- While requests are to be throttled, one for items is. -/
theorem answer_of_throttles {s : Service} {r : Request} (hr : r.isControl = false)
    (hs : 0 < s.plan.throttles) :
    (s.answer r).1 = .error tooFast ∧ (s.answer r).2.plan.throttles = s.plan.throttles - 1 := by
  have hcount : (s.count r).plan = s.plan := by cases r <;> rfl
  rw [← hcount] at hs ⊢
  cases r with
  | describeTable => cases hr
  | createTable => cases hr
  | deleteTable => cases hr
  | updateTable => cases hr
  | _ => exact unlessFault_of_throttles hs _

/-- A request for items that is sent again and again is throttled as often as is planned. -/
theorem outcomeAt_of_throttles {r : Request} (hr : r.isControl = false) {h : Host Service} {n : Nat}
    (hn : n < h.state.plan.throttles) :
    (Program.ask r).outcomeAt Service.backend h n = .error tooFast := by
  have hleft : ∀ i ≤ h.state.plan.throttles,
      ((Program.ask r).rerun Service.backend h i).state.plan.throttles =
        h.state.plan.throttles - i := by
    intro i hi
    induction i with
    | zero => rfl
    | succ i ih =>
      have hbefore := ih (by omega)
      have hanswer := (answer_of_throttles (s := ((Program.ask r).rerun Service.backend h i).state)
        hr (by omega)).2
      rw [Program.rerun, Program.run_ask]
      exact hanswer.trans (by omega)
  exact (answer_of_throttles hr (by rw [hleft n (Nat.le_of_lt hn)]; omega)).1

end Service

theorem Client.flatMap_exchanges_ask (r : Request) (b : Backend σ) (hosts : List (Host σ)) :
    hosts.flatMap ((Program.ask r).exchanges b) =
      hosts.map fun k => ⟨r, (b.answer r k.state).1⟩ := by
  induction hosts with
  | nil => rfl
  | cons k hosts ih => rw [List.flatMap_cons, ih]; rfl

namespace Sample

/-- Settings with the largest budget, and no pauses. -/
def tireless : Settings where
  tableName := "meta"
  region := "local"
  maxRetries := 4294967295
  minRetrySleep := .ofMillis 0
  maxRetrySleep := .ofMillis 0

/-- A service that throttles one request more than this budget allows to repeat. -/
def overrun : Host Service :=
  { state := { region := "local", plan := { throttles := 4294967296 } }, now := 5 }

/-- The removal of an item under these settings. -/
def removal : Operation Unit :=
  tireless.client.retry "Delete key" "s3a://b/d" true (.ask (.deleteItem "meta" ⟨"/b", "d"⟩))

/-- The settings are accepted. The removal is sent 4294967296 times, and reports that it was tried
zero times; with guards it is given up. -/
theorem failures_start_again :
    tireless.check = .ok () ∧
    (removal.run Service.backend {} overrun).outcome =
      .error (.retriesExhausted ⟨"Delete key", "s3a://b/d", "meta", "local"⟩ 0 true
        Service.tooFast.message) ∧
    (removal.exchanges Service.backend {} overrun).length = 4294967296 ∧
    (tireless.client.guardedRetry (fun _ => true) "Delete key" "s3a://b/d" true
      (.ask (.deleteItem "meta" ⟨"/b", "d"⟩))).GivesUp Service.backend {} overrun := by
  have hexhausted := tireless.client.outcome_retry_of_failing "Delete key" "s3a://b/d" true
    Service.backend {} (h := overrun) (e := Service.tooFast)
    (Program.onlySends_ask (.deleteItem "meta" ⟨"/b", "d"⟩)) rfl rfl
    fun i hi => Service.outcomeAt_of_throttles rfl (Nat.lt_succ_of_le hi)
  obtain ⟨hosts, htried⟩ := Client.exists_triedOn tireless.client "Delete key" "s3a://b/d" true
    (.ask (.deleteItem "meta" ⟨"/b", "d"⟩)) Service.backend ⟨tireless.client.policy, 0⟩ {} overrun
  have hlength : hosts.length = 4294967296 := (htried.exhausted UInt32.zero_le hexhausted).2
  refine ⟨by decide +kernel, hexhausted, ?_, htried.givesUp rfl rfl hexhausted⟩
  rw [removal, Client.retry, htried.exchanges_eq, Client.flatMap_exchanges_ask, List.length_map,
    hlength]

end Sample

end TableTree
