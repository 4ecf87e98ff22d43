import TableTree.Proofs.BoundedWork
import TableTree.Proofs.Budget

/-!
# A request that uses up its budget

A request under the policy runs its attempt on one host after the other, until an outcome ends it,
its waits are used up, or the store is closed during one of them. This holds of any attempt and any
host; a store that is being closed is not left out.

Results:

* `Client.TriedOn`: the hosts on which an attempt is run, and what the request leaves.
* `Client.exists_triedOn`: every request is tried on some hosts.
* `Client.TriedOn.exchanges_eq`: it sends what the attempt sends on them.
* `Client.TriedOn.exhausted`: on how many an attempt is run whose request has used up its budget.
* `Client.outcome_retry_of_failing`: a request that fails for now each time.
-/

namespace TableTree

open Operation

variable {σ α : Type}

/-- A backoff that hands out a wait raises its count by one, within its budget. -/
theorem Backoff.toNat_attempts_of_next? {b b' : Backoff} {wait : Duration}
    (h : b.next? = some (wait, b')) :
    b'.policy = b.policy ∧ b'.attempts.toNat = b.attempts.toNat + 1 ∧
      b'.attempts ≤ b.policy.maxRetries := by
  obtain ⟨hwait, rfl⟩ := next?_eq_some_iff.1 h
  have hlt : b.attempts < b.policy.maxRetries := Policy.delay?_isSome_iff.1 (by rw [hwait]; rfl)
  have hsucc := toNat_succ_of_lt hlt
  refine ⟨rfl, hsucc, UInt32.le_iff_toNat_le.2 ?_⟩
  rw [UInt32.lt_iff_toNat_lt] at hlt
  dsimp only
  omega

namespace Client

/-! ## What follows a failure -/

/-- What comes between two runs of an attempt: a failure is reported, and then comes a wait. -/
def between (c : Client) (operation target : String) (idempotent : Bool) (e : ServiceError)
    (attempts : UInt32) (d : Duration) : Operation Unit := do
  c.reportRetry ⟨operation, target, e, attempts, idempotent⟩
  c.pause operation target d

section

variable {c : Client} {operation target : String} {idempotent : Bool} {b : Backend σ}

/-- The wait between two runs comes to its end, or the store is closed before. -/
theorem run_between_cases (c : Client) (operation target : String) (idempotent : Bool)
    (b : Backend σ) (e : ServiceError) (n : UInt32) (d : Duration) (m : Memory) (k : Host σ) :
    ∃ m' h', (c.between operation target idempotent e n d).run b m k = ⟨.ok (), m', h'⟩ ∨
      (c.between operation target idempotent e n d).run b m k =
        ⟨.error (.interrupted (c.site operation target)), m', h'⟩ := by
  rw [between, run_bind_of_ok (run_reportRetry ..)]
  generalize ({ k with notices := _ } : Host σ) = k'
  cases hd : (k'.sleep d).1 with
  | elapsed => exact ⟨_, _, .inl (run_pause hd)⟩
  | interrupted => exact ⟨_, _, .inr (run_pause_of_interrupted hd)⟩

theorem exchanges_between (e : ServiceError) (n : UInt32) (d : Duration) (m : Memory)
    (k : Host σ) : (c.between operation target idempotent e n d).exchanges b m k = [] := by
  have hnone : (c.between operation target idempotent e n d).SendsAtMost (0 + 0) :=
    (sendsAtMost_reportRetry _).bind fun _ => sendsAtMost_pause _
  exact List.eq_nil_of_length_eq_zero (Nat.le_zero.1 (hnone b m k))

variable {attempt : Program (Except ServiceError α)} {e : ServiceError} {backoff : Backoff}

theorem afterAttempt_of_refused (hretry : shouldRetry e idempotent = false) :
    c.afterAttempt operation target idempotent attempt backoff (.error e) =
      throw (.backend (c.site operation target) e) := by
  rw [afterAttempt, hretry]
  rfl

theorem afterAttempt_of_next? {backoff' : Backoff} {d : Duration}
    (hretry : shouldRetry e idempotent = true) (hnext : backoff.next? = some (d, backoff')) :
    c.afterAttempt operation target idempotent attempt backoff (.error e) =
      c.between operation target idempotent e (backoff.attempts + 1) d >>= fun _ =>
        c.retryFrom operation target idempotent attempt backoff' := by
  simp only [afterAttempt, hretry, hnext, if_true, between, bind_assoc]

end

/-! ## The runs of an attempt -/

section

variable (c : Client) (operation target : String) (idempotent : Bool)
  (attempt : Program (Except ServiceError α)) (b : Backend σ)

/-- With the waits of a backoff left, an attempt is run on these hosts, one after the other, and the
request leaves this. -/
inductive TriedOn : Backoff → Memory → Host σ → List (Host σ) → Run σ α → Prop
  /-- the attempt succeeds -/
  | granted {backoff : Backoff} {m : Memory} {h k : Host σ} {a : α}
      (hrun : attempt.run b h = (.ok a, k)) : TriedOn backoff m h [h] ⟨.ok a, m, k⟩
  /-- it fails, and is not worth another try -/
  | refused {backoff : Backoff} {m : Memory} {h k : Host σ} {e : ServiceError}
      (hrun : attempt.run b h = (.error e, k)) (hretry : shouldRetry e idempotent = false) :
      TriedOn backoff m h [h] ⟨.error (.backend (c.site operation target) e), m, k⟩
  /-- it fails, and no wait is left -/
  | spent {backoff : Backoff} {m : Memory} {h k : Host σ} {e : ServiceError}
      (hrun : attempt.run b h = (.error e, k)) (hretry : shouldRetry e idempotent = true)
      (hnext : backoff.next? = none) :
      TriedOn backoff m h [h] ⟨.error (.retriesExhausted (c.site operation target)
        (backoff.attempts + 1) e.isThrottle e.message), m, k⟩
  /-- it fails, and the store is closed during the wait -/
  | interrupted {backoff backoff' : Backoff} {m m' : Memory} {h h' k : Host σ} {e : ServiceError}
      {d : Duration} (hrun : attempt.run b h = (.error e, k))
      (hretry : shouldRetry e idempotent = true) (hnext : backoff.next? = some (d, backoff'))
      (hbetween : (c.between operation target idempotent e (backoff.attempts + 1) d).run b m k =
        ⟨.error (.interrupted (c.site operation target)), m', h'⟩) :
      TriedOn backoff m h [h] ⟨.error (.interrupted (c.site operation target)), m', h'⟩
  /-- it fails, and after the wait it is tried again -/
  | again {backoff backoff' : Backoff} {m m' : Memory} {h h' k : Host σ} {e : ServiceError}
      {d : Duration} {hosts : List (Host σ)} {result : Run σ α}
      (hrun : attempt.run b h = (.error e, k)) (hretry : shouldRetry e idempotent = true)
      (hnext : backoff.next? = some (d, backoff'))
      (hbetween : (c.between operation target idempotent e (backoff.attempts + 1) d).run b m k =
        ⟨.ok (), m', h'⟩)
      (hrest : TriedOn backoff' m' h' hosts result) : TriedOn backoff m h (h :: hosts) result

/-- Every request under the policy is tried on some hosts. -/
theorem exists_triedOn (backoff : Backoff) (m : Memory) (h : Host σ) :
    ∃ hosts, c.TriedOn operation target idempotent attempt b backoff m h hosts
      ((c.retryFrom operation target idempotent attempt backoff).run b m h) := by
  -- on the waits that are left
  induction hn : backoff.remaining using Nat.strongRecOn generalizing backoff m h with
  | ind n ih =>
    rw [retryFrom_eq, run_bind, run_perform]
    rcases hrun : attempt.run b h with ⟨e | a, k⟩
    · dsimp only [Run.andThen]
      cases hretry : shouldRetry e idempotent with
      | false =>
        rw [afterAttempt_of_refused hretry]
        exact ⟨[h], .refused hrun hretry⟩
      | true =>
        rcases hnext : backoff.next? with _ | ⟨d, backoff'⟩
        · rw [c.afterAttempt_of_exhausted operation target idempotent hretry hnext]
          exact ⟨[h], .spent hrun hretry hnext⟩
        · rw [afterAttempt_of_next? hretry hnext, run_bind]
          obtain ⟨m', h', hbetween | hbetween⟩ :=
            c.run_between_cases operation target idempotent b e (backoff.attempts + 1) d m k
          · obtain ⟨hosts, hrest⟩ :=
              ih _ (hn ▸ Backoff.remaining_lt_of_next? hnext) backoff' m' h' rfl
            rw [hbetween]
            exact ⟨h :: hosts, .again hrun hretry hnext hbetween hrest⟩
          · rw [hbetween]
            exact ⟨[h], .interrupted hrun hretry hnext hbetween⟩
    · exact ⟨[h], .granted hrun⟩

end

namespace TriedOn

variable {c : Client} {operation target : String} {idempotent : Bool}
  {attempt : Program (Except ServiceError α)} {b : Backend σ} {backoff : Backoff} {m : Memory}
  {h : Host σ} {hosts : List (Host σ)} {result : Run σ α}

/-- A request sends what its attempt sends on the hosts on which it is run. -/
theorem exchanges_eq
    (ht : c.TriedOn operation target idempotent attempt b backoff m h hosts result) :
    (c.retryFrom operation target idempotent attempt backoff).exchanges b m h =
      hosts.flatMap (attempt.exchanges b) := by
  have hfirst (backoff : Backoff) (m : Memory) (h : Host σ) :
      (c.retryFrom operation target idempotent attempt backoff).exchanges b m h =
        attempt.exchanges b h ++ (c.afterAttempt operation target idempotent attempt backoff
          (attempt.run b h).1).exchanges b m (attempt.run b h).2 := by
    rw [retryFrom_eq, exchanges_bind_of_ok (run_perform ..), exchanges_perform]
  induction ht with
  | granted hrun =>
    rw [hfirst, hrun]
    rfl
  | refused hrun hretry =>
    rw [hfirst, hrun, afterAttempt_of_refused hretry]
    rfl
  | spent hrun hretry hnext =>
    rw [hfirst, hrun, afterAttempt_of_exhausted _ _ _ _ hretry hnext]
    rfl
  | interrupted hrun hretry hnext hbetween =>
    rw [hfirst, hrun, afterAttempt_of_next? hretry hnext,
      exchanges_bind_of_error (congrArg Run.outcome hbetween), exchanges_between]
    rfl
  | again hrun hretry hnext hbetween _ ih =>
    rw [hfirst, hrun, afterAttempt_of_next? hretry hnext, exchanges_bind_of_ok hbetween,
      exchanges_between, List.nil_append, ih, List.flatMap_cons]

/-- A request that has used up its budget reports one more than its budget, and its attempt was run
once more than there were waits left. -/
theorem exhausted
    (ht : c.TriedOn operation target idempotent attempt b backoff m h hosts result)
    (hle : backoff.attempts ≤ backoff.policy.maxRetries) {site : Site} {attempts : UInt32}
    {throttled : Bool} {text : String}
    (hresult : result.outcome = .error (.retriesExhausted site attempts throttled text)) :
    attempts = backoff.policy.maxRetries + 1 ∧ hosts.length = backoff.remaining + 1 := by
  induction ht with
  | granted hrun => cases hresult
  | refused hrun hretry => cases hresult
  | @spent backoff _ _ _ _ hrun hretry hnext =>
    have hfull : backoff.attempts = backoff.policy.maxRetries :=
      UInt32.le_antisymm hle (Backoff.next?_eq_none_iff.1 hnext)
    cases hresult
    refine ⟨by rw [hfull], ?_⟩
    rw [Backoff.remaining, hfull, Nat.sub_self]
    rfl
  | interrupted hrun hretry hnext hbetween => cases hresult
  | again hrun hretry hnext hbetween _ ih =>
    obtain ⟨hpolicy, hsucc, hle'⟩ := Backoff.toNat_attempts_of_next? hnext
    obtain ⟨hattempts, hlength⟩ := ih (by rwa [hpolicy]) hresult
    rw [hpolicy] at hattempts
    refine ⟨hattempts, ?_⟩
    rw [UInt32.le_iff_toNat_le] at hle'
    rw [List.length_cons, hlength, Backoff.remaining, Backoff.remaining, hpolicy, hsucc]
    omega

end TriedOn

/-! ## Failing each time -/

/-- A request that fails for now each time it is tried uses up its budget. -/
theorem outcome_retry_of_failing (c : Client) (operation target : String) (idempotent : Bool)
    {attempt : Program (Except ServiceError α)} (b : Backend σ) (m : Memory) {h : Host σ}
    {e : ServiceError}
    (hattempt : attempt.OnlySends) (hopen : h.closesAt = none)
    (hretry : shouldRetry e idempotent = true)
    (hfails : ∀ i ≤ c.policy.maxRetries.toNat, attempt.outcomeAt b h i = .error e) :
    ((c.retry operation target idempotent attempt).run b m h).outcome =
      .error (.retriesExhausted (c.site operation target) (c.policy.maxRetries + 1) e.isThrottle
        e.message) := by
  have hspent : (⟨c.policy, .ofNat c.policy.maxRetries.toNat⟩ : Backoff).next? = none := by
    rw [Backoff.next?_eq_none_iff, UInt32.ofNat_toNat]
    exact UInt32.le_refl _
  have hlast : c.afterAttempt operation target idempotent attempt _ (.error e) = _ :=
    c.afterAttempt_of_exhausted operation target idempotent hretry hspent
  rw [← hfails _ (Nat.le_refl _), UInt32.ofNat_toNat] at hlast
  refine (c.course_of_last operation target idempotent m hattempt hopen (fun i hi => ?_)
    (Nat.le_refl _) (by rwa [UInt32.ofNat_toNat])).1
  rw [hfails i (Nat.le_of_lt hi), settles_error_iff, hretry]
  exact Bool.noConfusion

end Client

end TableTree
