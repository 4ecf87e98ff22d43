import Mathlib.Tactic.Choose
import TableTree.Proofs.Deeds

/-!
# The course of a request under a policy

A request is tried until an outcome settles it: a success, a permanent failure, or any failure but a
throttled one of a request that may not be repeated. Each failure before that is told to the
listener and followed by the wait that the policy has after so many retries, and when the waits are
used up the last failure is the end.

Results:

* `Program.rerun`, `Program.outcomeAt`: an attempt that is run again and again, and its outcomes.
* `Settles`: outcomes after which a request is not tried again.
* `Client.Course`: the runs of an attempt, with the events and the waits between them.
* `Client.comes_retries`: a request after some retries.
* `Client.retry_course`: a request under the policy, whatever its attempts come to.
-/

namespace TableTree

open Operation

variable {σ α : Type}

/-! ## An attempt again and again -/

namespace Program

/-- The host after an attempt was run so many times, with nothing in between. -/
def rerun (b : Backend σ) (p : Program α) (h : Host σ) : Nat → Host σ
  | 0 => h
  | n + 1 => (p.run b (p.rerun b h n)).2

/-- What an attempt comes to when it is run for the `n`-th time, counted from zero. -/
def outcomeAt (b : Backend σ) (p : Program α) (h : Host σ) (n : Nat) : α :=
  (p.run b (p.rerun b h n)).1

/-- What an attempt does when it is run for the `n`-th time, counted from zero. -/
def deedsAt (b : Backend σ) (p : Program α) (h : Host σ) (n : Nat) : List Deed :=
  p.deeds b (p.rerun b h n)

end Program

/-- A backend that answers a request with one outcome after the other, and counts how often it was
sent. It knows no other request. -/
def Backend.replaying (r : Request) (outcomes : Nat → r.Answer) : Backend Nat where
  answer r' n :=
    if hr : r' = r then (hr ▸ outcomes n, n + 1) else (.error (.validation "unknown request"), n)

theorem Backend.answer_replaying (r : Request) (outcomes : Nat → r.Answer) (n : Nat) :
    (replaying r outcomes).answer r n = (outcomes n, n + 1) :=
  dif_pos rfl

/-- A request may come to any sequence of outcomes. -/
theorem Program.outcomeAt_replaying (r : Request) (outcomes : Nat → r.Answer) (h : Host Nat)
    (n : Nat) :
    ((ask r).rerun (.replaying r outcomes) h n).state = h.state + n ∧
      (ask r).outcomeAt (.replaying r outcomes) h n = outcomes (h.state + n) := by
  have hrerun : ((ask r).rerun (.replaying r outcomes) h n).state = h.state + n := by
    induction n with
    | zero => rfl
    | succ n ih =>
      rw [rerun, run_ask, Backend.answer_replaying, ih]
      rfl
  refine ⟨hrerun, ?_⟩
  rw [outcomeAt, run_ask, Backend.answer_replaying, hrerun]

/-! ## What settles a request -/

/-- The outcome ends the tries of a request, whatever the policy has left: a success, a permanent
failure, or any but a throttled one of a request that may not be repeated. -/
def Settles (idempotent : Bool) : Except ServiceError α → Prop
  | .ok _ => True
  | .error e => e.isPermanent = true ∨ e.isThrottle = false ∧ idempotent = false

theorem settles_error_iff {idempotent : Bool} {e : ServiceError} :
    Settles idempotent (.error e : Except ServiceError α) ↔
      Client.shouldRetry e idempotent = false := by
  show e.isPermanent = true ∨ e.isThrottle = false ∧ idempotent = false ↔ _
  unfold Client.shouldRetry
  cases e.isPermanent with
  | true => simp
  | false => simp

/-- An outcome that does not settle a request is a failure after which it is tried again. -/
theorem exists_eq_error_of_not_settles {idempotent : Bool} {outcome : Except ServiceError α}
    (h : ¬ Settles idempotent outcome) :
    ∃ e, outcome = .error e ∧ Client.shouldRetry e idempotent = true := by
  cases outcome with
  | ok a => exact absurd trivial h
  | error e => exact ⟨e, rfl, by simpa only [settles_error_iff, Bool.not_eq_false] using h⟩

/-- The deed leaves a line in the log. -/
def Deed.isLogged : Deed → Bool
  | .told n => n.log?.isSome
  | _ => false

namespace Client

/-- What a request comes to when an outcome has settled it. -/
def verdict (c : Client) (operation target : String) :
    Except ServiceError α → Except StoreError α
  | .ok a => .ok a
  | .error e => .error (.backend (c.site operation target) e)

/-- The runs of an attempt that is tried again so many times, but for the last one. After each the
listener is told of the event, and then the wait comes to its end. -/
def tries (event : Nat → RetryEvent) (wait : Nat → Duration) (runs : Nat → List Deed) (n : Nat) :
    List Deed :=
  (List.range n).flatMap fun i =>
    runs i ++ [.told (.retrying (event i)), .waited (wait i) .elapsed]

/-- The deeds `ds` are those of a request whose attempt comes to the outcomes `outcome` and does
`runs`, and which is tried again `n` times. Each run but the last is followed by one event, with the
failure and the number of failures so far, and by the wait that the policy has after so many
retries. Lines in the log are not looked at. -/
def Course (c : Client) (operation target : String) (idempotent : Bool)
    (outcome : Nat → Except ServiceError α) (runs : Nat → List Deed) (n : Nat) (ds : List Deed) :
    Prop :=
  ∃ (event : Nat → RetryEvent) (wait : Nat → Duration),
    (∀ i < n, outcome i = .error (event i).error ∧ (event i).attempts.toNat = i + 1 ∧
      (event i).operation = operation ∧ (event i).target = target ∧
      (event i).idempotent = idempotent ∧ c.policy.delay? (.ofNat i) = some (wait i)) ∧
    ds.filter (fun d => !d.isLogged) = tries event wait runs n ++ runs n

/-! ## One try -/

variable {attempt : Program (Except ServiceError α)} {b : Backend σ} {h k : Host σ}

/-- What a client does after an attempt: it ends, or it reports the failure, waits and tries
again. -/
def afterAttempt (c : Client) (operation target : String) (idempotent : Bool)
    (attempt : Program (Except ServiceError α)) (backoff : Backoff) :
    Except ServiceError α → Operation α
  | .ok a => pure a
  | .error e =>
    if shouldRetry e idempotent then
      match backoff.next? with
      | none =>
        throw (.retriesExhausted (c.site operation target) (backoff.attempts + 1) e.isThrottle
          e.message)
      | some (duration, backoff') => do
        c.reportRetry ⟨operation, target, e, backoff.attempts + 1, idempotent⟩
        c.pause operation target duration
        c.retryFrom operation target idempotent attempt backoff'
    else throw (.backend (c.site operation target) e)

variable (c : Client) (operation target : String) (idempotent : Bool)

theorem retryFrom_eq (backoff : Backoff) :
    c.retryFrom operation target idempotent attempt backoff =
      perform attempt >>= c.afterAttempt operation target idempotent attempt backoff := by
  rw [retryFrom]
  congr 1
  funext r
  cases r with
  | ok a => rfl
  | error e =>
    dsimp only [afterAttempt]
    split
    · split
      · rename_i hnext
        rw [hnext]
      · rename_i hnext
        rw [hnext]
    · rfl

/-- What follows a try that has failed for now: the report, the wait, and the next try. -/
theorem comes_afterAttempt {backoff backoff' : Backoff} {d : Duration} {e : ServiceError}
    (m : Memory) (hretry : shouldRetry e idempotent = true) (hnext : backoff.next? = some (d, backoff'))
    (hopen : h.closesAt = none) :
    ∃ k : Host σ, k.state = h.state ∧ k.closesAt = none ∧
      ((c.afterAttempt operation target idempotent attempt backoff (.error e)).start m).Comes b h
        ((c.report ⟨operation, target, e, backoff.attempts + 1, idempotent⟩
          (m.throttleCount + 1)).map .told ++ [.waited d .elapsed])
        ((c.retryFrom operation target idempotent attempt backoff').start (m.counting e)) k := by
  have hafter : c.afterAttempt operation target idempotent attempt backoff (.error e) = (do
      c.reportRetry ⟨operation, target, e, backoff.attempts + 1, idempotent⟩
      c.pause operation target d
      c.retryFrom operation target idempotent attempt backoff') := by
    simp only [afterAttempt, hretry, hnext, if_true]
  let event : RetryEvent := ⟨operation, target, e, backoff.attempts + 1, idempotent⟩
  let reported : Host σ :=
    { h with notices := h.notices ++ c.report event (m.throttleCount + 1) }
  have hd : (reported.sleep d).1 = .elapsed :=
    congrArg Prod.fst (Host.sleep_of_open (h := reported) hopen d)
  have hlater := Host.later_sleep hd
  refine ⟨(reported.sleep d).2, hlater.state_eq, hlater.closesAt_eq.trans hopen, ?_⟩
  rw [hafter, ← deeds_reportRetry (b := b) (h := h),
    ← deeds_pause_of_elapsed c operation target b (m.counting e) hd]
  exact (comes_bind_of_ok (c.run_reportRetry _ b m h) _).trans (comes_bind_of_ok (run_pause hd) _)

/-- A try that is settled is the last one. -/
theorem afterAttempt_of_settles {outcome : Except ServiceError α}
    (h : Settles idempotent outcome) (backoff : Backoff) :
    c.afterAttempt operation target idempotent attempt backoff outcome =
      ofResult (c.verdict operation target outcome) := by
  cases outcome with
  | ok a => rfl
  | error e =>
    rw [afterAttempt, settles_error_iff.1 h]
    rfl

/-- When the waits are used up, a failure for now is the last one. -/
theorem afterAttempt_of_exhausted {backoff : Backoff} {e : ServiceError}
    (hretry : shouldRetry e idempotent = true) (hnext : backoff.next? = none) :
    c.afterAttempt operation target idempotent attempt backoff (.error e) =
      ofResult (.error (.retriesExhausted (c.site operation target) (backoff.attempts + 1)
        e.isThrottle e.message)) := by
  simp only [afterAttempt, hretry, hnext, if_true]
  rfl

/-- A try on a host whose backend is where `i` runs of the attempt have left it. -/
theorem comes_attempt (m : Memory) (hattempt : attempt.OnlySends) {i : Nat}
    (hstate : k.state = (attempt.rerun b h i).state) (backoff : Backoff) :
    ((c.retryFrom operation target idempotent attempt backoff).start m).Comes b k
      (attempt.deedsAt b h i)
      ((c.afterAttempt operation target idempotent attempt backoff
        (attempt.outcomeAt b h i)).start m)
      { k with state := (attempt.rerun b h (i + 1)).state } := by
  obtain ⟨hrun, hdeeds⟩ := hattempt.run_eq (b := b) hstate
  have hperform : (perform attempt).run b m k = ⟨.ok (attempt.outcomeAt b h i), m,
      { k with state := (attempt.rerun b h (i + 1)).state }⟩ := by
    rw [run_perform, hrun]
    rfl
  have hsame : (perform attempt).deeds b m k = attempt.deedsAt b h i := by
    rw [Operation.deeds, start_perform, Program.deeds_bind, hdeeds]
    exact List.append_nil _
  rw [retryFrom_eq, ← hsame]
  exact comes_bind_of_ok hperform _

/-! ## A request after some retries -/

/-- Of the notices of a report, all but the event are lines in the log. -/
theorem filter_isLogged_report (event : RetryEvent) (count : UInt64) :
    ((c.report event count).map Deed.told).filter (fun d => !d.isLogged) =
      [.told (.retrying event)] := by
  unfold report
  split
  · split
    · rfl
    · rfl
  · split
    · rfl
    · rfl

/-- Whoever only sends leaves no lines in the log. -/
theorem filter_isLogged_deedsAt {p : Program α} (hp : p.OnlySends) (b : Backend σ) (h : Host σ)
    (n : Nat) : (p.deedsAt b h n).filter (fun d => !d.isLogged) = p.deedsAt b h n := by
  refine List.filter_eq_self.2 fun d hd => ?_
  obtain ⟨x, rfl⟩ := hp.exists_eq_exchanged hd
  rfl

theorem tries_succ (event : Nat → RetryEvent) (wait : Nat → Duration) (runs : Nat → List Deed)
    (n : Nat) :
    tries event wait runs (n + 1) =
      tries event wait runs n ++
        (runs n ++ [.told (.retrying (event n)), .waited (wait n) .elapsed]) := by
  unfold tries
  rw [List.range_succ, List.flatMap_append, List.flatMap_singleton]

/-- A count within the budget of a policy is below the largest number of 32 bits. -/
theorem toNat_ofNat_of_lt {bound : UInt32} {i : Nat} (hi : i < bound.toNat) :
    (UInt32.ofNat i).toNat = i ∧ (UInt32.ofNat i + 1).toNat = i + 1 ∧
      UInt32.ofNat (i + 1) = UInt32.ofNat i + 1 := by
  have hsame : (UInt32.ofNat i).toNat = i :=
    UInt32.toNat_ofNat_of_lt (Nat.lt_trans hi bound.toNat_lt)
  have hlt : UInt32.ofNat i < bound := by rwa [UInt32.lt_iff_toNat_lt, hsame]
  have hsucc := Backoff.toNat_succ_of_lt hlt
  rw [hsame] at hsucc
  exact ⟨hsame, hsucc, UInt32.ofNat_add ..⟩

/-- The policy has a wait exactly for the counts within its budget. -/
theorem isSome_delay?_iff (p : Policy) {i : Nat} (hi : i ≤ p.maxRetries.toNat) :
    (p.delay? (.ofNat i)).isSome ↔ i < p.maxRetries.toNat := by
  have hsame : (UInt32.ofNat i).toNat = i :=
    UInt32.toNat_ofNat_of_lt (Nat.lt_of_le_of_lt hi p.maxRetries.toNat_lt)
  rw [Policy.delay?_isSome_iff, UInt32.lt_iff_toNat_lt, hsame]

theorem exists_delay?_eq (p : Policy) {i : Nat} (hi : i < p.maxRetries.toNat) :
    ∃ d, p.delay? (.ofNat i) = some d :=
  Option.isSome_iff_exists.1 ((isSome_delay?_iff p (Nat.le_of_lt hi)).2 hi)

/-- A backoff that hands out a wait goes on with the next count. -/
theorem next?_ofNat {p : Policy} {i : Nat} {d : Duration} (hi : i < p.maxRetries.toNat)
    (hd : p.delay? (.ofNat i) = some d) :
    (⟨p, .ofNat i⟩ : Backoff).next? = some (d, ⟨p, .ofNat (i + 1)⟩) := by
  rw [Backoff.next?_eq_some_iff, (toNat_ofNat_of_lt hi).2.2]
  exact ⟨hd, rfl⟩

variable {failure : Nat → ServiceError} {wait : Nat → Duration} {n : Nat}

/-- The event that is told after the `i`-th failure, counted from zero. -/
def eventOf (operation target : String) (idempotent : Bool) (failure : Nat → ServiceError)
    (i : Nat) : RetryEvent :=
  ⟨operation, target, failure i, .ofNat i + 1, idempotent⟩

/-- What a client does until its `n`-th retry, when so many runs of the attempt have failed for
now. -/
theorem comes_retries (m : Memory) (hattempt : attempt.OnlySends) (hopen : h.closesAt = none)
    (hfailure : ∀ i < n, attempt.outcomeAt b h i = .error (failure i) ∧
      shouldRetry (failure i) idempotent = true)
    (hwait : ∀ i < n, c.policy.delay? (.ofNat i) = some (wait i))
    (hn : n ≤ c.policy.maxRetries.toNat) :
    ∃ (m' : Memory) (k : Host σ) (ds : List Deed),
      k.state = (attempt.rerun b h n).state ∧ k.closesAt = none ∧
      ds.filter (fun d => !d.isLogged) =
        tries (eventOf operation target idempotent failure) wait (attempt.deedsAt b h) n ∧
      ((c.retry operation target idempotent attempt).start m).Comes b h ds
        ((c.retryFrom operation target idempotent attempt ⟨c.policy, .ofNat n⟩).start m') k := by
  induction n with
  | zero => exact ⟨m, h, [], rfl, hopen, rfl, .refl ..⟩
  | succ n ih =>
    obtain ⟨m', k, ds, hstate, hclosesAt, hds, hcomes⟩ :=
      ih (fun i hi => hfailure i (by omega)) (fun i hi => hwait i (by omega)) (by omega)
    obtain ⟨houtcome, hretry⟩ := hfailure n (by omega)
    have htry := c.comes_attempt operation target idempotent m' hattempt hstate
      ⟨c.policy, .ofNat n⟩
    rw [houtcome] at htry
    have hnext := next?_ofNat (Nat.lt_of_succ_le hn) (hwait n (by omega))
    obtain ⟨k', hstate', hclosesAt', hafter⟩ :=
      c.comes_afterAttempt operation target idempotent m' hretry hnext
        (show { k with state := (attempt.rerun b h (n + 1)).state }.closesAt = none from hclosesAt)
    refine ⟨_, k', _, hstate', hclosesAt', ?_, (hcomes.trans htry).trans hafter⟩
    rw [List.filter_append, List.filter_append, List.filter_append, hds,
      filter_isLogged_deedsAt hattempt, filter_isLogged_report, tries_succ, List.append_assoc]
    rfl

/-- A request whose last run, after `n` retries, is followed by `last`. -/
theorem course_of_last (m : Memory) (hattempt : attempt.OnlySends) (hopen : h.closesAt = none)
    (hretried : ∀ i < n, ¬ Settles idempotent (attempt.outcomeAt b h i))
    (hn : n ≤ c.policy.maxRetries.toNat) {last : Except StoreError α}
    (hlast : c.afterAttempt operation target idempotent attempt ⟨c.policy, .ofNat n⟩
      (attempt.outcomeAt b h n) = ofResult last) :
    ((c.retry operation target idempotent attempt).run b m h).outcome = last ∧
      ((c.retry operation target idempotent attempt).run b m h).host.state =
        (attempt.rerun b h (n + 1)).state ∧
      c.Course operation target idempotent (attempt.outcomeAt b h) (attempt.deedsAt b h) n
        ((c.retry operation target idempotent attempt).deeds b m h) := by
  have : Nonempty ServiceError := ⟨.validation ""⟩
  choose! failure hfailure using fun i hi => exists_eq_error_of_not_settles (hretried i hi)
  choose! wait hwait using fun i (hi : i < n) =>
    exists_delay?_eq c.policy (Nat.lt_of_lt_of_le hi hn)
  obtain ⟨m', k, ds, hstate, -, hds, hcomes⟩ :=
    c.comes_retries operation target idempotent m hattempt hopen hfailure hwait hn
  have htry := c.comes_attempt operation target idempotent m' hattempt hstate
    ⟨c.policy, .ofNat n⟩
  rw [hlast] at htry
  have hall := hcomes.trans htry
  have hrun : (c.retry operation target idempotent attempt).run b m h =
      ⟨last, m', { k with state := (attempt.rerun b h (n + 1)).state }⟩ := by
    unfold Operation.run
    rw [hall.run_eq]
    rfl
  rw [hrun]
  refine ⟨rfl, rfl, eventOf operation target idempotent failure, wait, fun i hi => ?_, ?_⟩
  · have hattempts := (toNat_ofNat_of_lt (Nat.lt_of_lt_of_le hi hn)).2.1
    exact ⟨(hfailure i hi).1, hattempts, rfl, rfl, rfl, hwait i hi⟩
  · unfold Operation.deeds
    rw [hall.deeds_eq, List.filter_append, List.filter_append, hds,
      filter_isLogged_deedsAt hattempt]
    exact List.append_nil _

/-! ## A request under the policy -/

/-- **A request follows its policy**, whatever its attempts come to, while the store is open. Let
the `k`-th outcome, counted from zero, be the first that settles the request. If the budget allows
for `k` retries, the attempt runs `k + 1` times and the request comes to that outcome; if not, it
runs once more than there are retries in the budget, and the request fails with the number of its
attempts and says whether the last of them was throttled. An attempt does nothing but send, and the
backend may give it any sequence of outcomes (`Program.outcomeAt_replaying`). -/
theorem retry_course (c : Client) (operation target : String) (idempotent : Bool)
    {attempt : Program (Except ServiceError α)} (b : Backend σ) (m : Memory) {h : Host σ}
    (hattempt : attempt.OnlySends) (hbudget : c.policy.maxRetries.toNat < UInt32.size - 1)
    (hopen : h.closesAt = none) :
    let outcome := attempt.outcomeAt b h
    let run := (c.retry operation target idempotent attempt).run b m h
    let course := fun n => run.host.state = (attempt.rerun b h (n + 1)).state ∧
      c.Course operation target idempotent outcome (attempt.deedsAt b h) n
        ((c.retry operation target idempotent attempt).deeds b m h)
    (∀ k ≤ c.policy.maxRetries.toNat, (∀ i < k, ¬ Settles idempotent (outcome i)) →
      Settles idempotent (outcome k) →
        run.outcome = c.verdict operation target (outcome k) ∧ course k) ∧
    ((∀ i ≤ c.policy.maxRetries.toNat, ¬ Settles idempotent (outcome i)) →
      ∃ (e : ServiceError) (attempts : UInt32),
        outcome c.policy.maxRetries.toNat = .error e ∧
        attempts.toNat = c.policy.maxRetries.toNat + 1 ∧
        run.outcome = .error (.retriesExhausted (c.site operation target) attempts e.isThrottle
          e.message) ∧ course c.policy.maxRetries.toNat) := by
  intro outcome run course
  refine ⟨fun k hk hbefore hsettles => ?_, fun hnever => ?_⟩
  · exact c.course_of_last operation target idempotent m hattempt hopen hbefore hk
      (c.afterAttempt_of_settles operation target idempotent hsettles _)
  · obtain ⟨e, he, hretry⟩ := exists_eq_error_of_not_settles (hnever _ (Nat.le_refl _))
    have hspent : (⟨c.policy, .ofNat c.policy.maxRetries.toNat⟩ : Backoff).next? = none := by
      rw [UInt32.ofNat_toNat, Backoff.next?, Option.map_eq_none_iff,
        ← Option.not_isSome_iff_eq_none, Policy.delay?_isSome_iff]
      exact Nat.lt_irrefl _
    have hlast : c.afterAttempt operation target idempotent attempt _ (.error e) = _ :=
      c.afterAttempt_of_exhausted operation target idempotent hretry hspent
    rw [← he] at hlast
    have hlargest : c.policy.maxRetries < (4294967295 : UInt32) := UInt32.lt_iff_toNat_lt.2 hbudget
    refine ⟨e, c.policy.maxRetries + 1, he, Backoff.toNat_succ_of_lt hlargest, ?_⟩
    rw [UInt32.ofNat_toNat] at hlast
    exact c.course_of_last operation target idempotent m hattempt hopen
      (fun i hi => hnever i (Nat.le_of_lt hi)) (Nat.le_refl _) (by rwa [UInt32.ofNat_toNat])

end Client

/-! ## A sample -/

namespace Sample

/-- The outcomes of a look-up that is throttled, then lost, and then finds nothing. -/
def unsteady : Nat → Except ServiceError (Option Item)
  | 0 => .error (.throttled "slow")
  | 1 => .error (.network "reset")
  | _ => .ok none

/-- The look-up. -/
def unsteadyLookUp : Program (Except ServiceError (Option Item)) :=
  .ask (.getItem "meta" ⟨"/b", "d"⟩)

/-- A client with three retries. -/
def steadyClient : Client := ⟨⟨3, .ofMillis 10, .ofMillis 15⟩, "meta", "local", 5⟩

/-- A backend that has not been asked yet. -/
def freshHost : Host Nat := { state := 0, now := 5 }

/-- The look-up is tried again twice. -/
theorem course_unsteadyLookUp :
    let b := Backend.replaying (.getItem "meta" ⟨"/b", "d"⟩) unsteady
    let lookUp : Operation (Option Item) := steadyClient.retry "get" "/b/d" true unsteadyLookUp
    unsteadyLookUp.OnlySends ∧ steadyClient.policy.maxRetries.toNat < UInt32.size - 1 ∧
      freshHost.closesAt = none ∧ (lookUp.run b {} freshHost).outcome = .ok none ∧
      (lookUp.run b {} freshHost).host.state = 3 ∧
      steadyClient.Course "get" "/b/d" true unsteady (unsteadyLookUp.deedsAt b freshHost) 2
        (lookUp.deeds b {} freshHost) := by
  intro b lookUp
  have hattempt : unsteadyLookUp.OnlySends := Program.onlySends_ask _
  have hreplayed (n : Nat) := Program.outcomeAt_replaying (.getItem "meta" ⟨"/b", "d"⟩) unsteady
    freshHost n
  have houtcome : unsteadyLookUp.outcomeAt b freshHost = unsteady := by
    funext n
    exact (hreplayed n).2.trans (congrArg unsteady (Nat.zero_add n))
  have hbefore : ∀ i < 2, ¬ Settles true (unsteadyLookUp.outcomeAt b freshHost i) := by
    rw [houtcome]
    rintro (_ | _ | i) hi
    · simp [unsteady, Settles, ServiceError.isPermanent]
    · simp [unsteady, Settles, ServiceError.isPermanent]
    · omega
  obtain ⟨hok, hstate, hcourse⟩ := (Client.retry_course steadyClient "get" "/b/d" true b {} hattempt
    (by decide) rfl).1 2 (by decide) hbefore (by rw [houtcome]; trivial)
  rw [houtcome] at hok hcourse
  exact ⟨hattempt, by decide, rfl, hok, hstate.trans (hreplayed 3).1, hcourse⟩

end Sample

end TableTree
