import TableTree.Proofs.RetryCourse

/-!
# The count of throttled requests

A client counts the requests that were throttled, and each time that it waits before writes that
were left out are sent again. The count tells whether a warning that a table has too little capacity
is still logged, so it limits such warnings over the whole life of a client.

Results:

* `Operation.Leaves`: what runs of an operation tell and remember; `Leaves.bind` for one operation
  after the other, `Client.leaves_retryFrom` for a request under a policy.
* `Errand`, `Job`: what a client is used for, and when.
* `Job.throttleCount_run`: what the count is raised by.
* `Job.warnings_run`: the warnings use up the numbers below the limit.
* `Job.lines_told`: what is logged of a request that is tried again.
* `Client.throttling_accounted`: the count and the warnings over the life of a client.
-/

namespace TableTree

open Operation

variable {σ α β : Type}

/-! ## Kinds of notices -/

namespace Notice

/-- The listener is told of a throttled request. -/
def isThrottled : Notice → Bool
  | .retrying event => event.error.isThrottle
  | _ => false

/-- The notice is logged for information only. -/
def isInformation (n : Notice) : Bool :=
  match n.log? with
  | some (.info, _) => true
  | _ => false

/-- The notice is a line in the log about a request that is tried again: the warning that a table
has too little capacity, or what is logged for information only. -/
def isRetryLine (n : Notice) : Bool := n.isCapacityWarning || n.isInformation

end Notice

/-! ## What runs tell and remember -/

/-- A relation between what is remembered before and after something, and what is told meanwhile,
that passes from two things to one after the other. -/
structure Composes (R : Memory → List Notice → Memory → Prop) : Prop where
  refl : ∀ m, R m [] m
  trans : ∀ {m₁ m₂ m₃ ns ns'}, R m₁ ns m₂ → R m₂ ns' m₃ → R m₁ (ns ++ ns') m₃

namespace Operation

/-- What every run of the operation tells, and remembers after it, is as `R` says. -/
def Leaves (R : Memory → List Notice → Memory → Prop) (x : Operation α) : Prop :=
  ∀ ⦃σ : Type⦄ (b : Backend σ) (m : Memory) (h : Host σ), R m (x.told b m h) (x.run b m h).memory

/-- What follows an operation that has succeeded tells what it does. -/
theorem told_bind_of_ok {b : Backend σ} {x : Operation α} {m m₁ : Memory} {h h₁ : Host σ} {a : α}
    (hx : x.run b m h = ⟨.ok a, m₁, h₁⟩) (f : α → Operation β) :
    (x >>= f).told b m h = x.told b m h ++ (f a).told b m₁ h₁ := by
  have hcomes := (comes_bind_of_ok hx f).deeds_eq
  unfold told
  rw [show (x >>= f).deeds b m h = _ from hcomes, List.filterMap_append]
  rfl

/-- What follows an operation that has failed is not reached. -/
theorem told_bind_of_error {b : Backend σ} {x : Operation α} {m : Memory} {h : Host σ}
    {e : StoreError} (hx : (x.run b m h).outcome = .error e) (f : α → Operation β) :
    (x >>= f).told b m h = x.told b m h := by
  unfold Operation.run at hx
  unfold told deeds
  rw [start_bind, Program.deeds_bind]
  rcases hrun : (x.start m).run b h with ⟨⟨r, m₁⟩, h₁⟩
  rw [hrun] at hx
  obtain rfl : r = .error e := hx
  exact congrArg _ (List.append_nil _)

theorem told_perform {p : Program α} (b : Backend σ) (m : Memory) (h : Host σ) :
    (perform p).told b m h = (p.deeds b h).filterMap Deed.notice? := by
  unfold told deeds
  rw [start_perform, Program.deeds_bind]
  exact congrArg _ (List.append_nil _)

/-- Whoever only sends tells nothing. -/
theorem told_perform_of_onlySends {p : Program α} (hp : p.OnlySends) (b : Backend σ) (m : Memory)
    (h : Host σ) : (perform p).told b m h = [] := by
  rw [told_perform, List.filterMap_eq_nil_iff]
  intro d hd
  obtain ⟨x, rfl⟩ := hp.exists_eq_exchanged hd
  rfl

section Leaves

variable {R : Memory → List Notice → Memory → Prop} {x : Operation α}

theorem leaves_ofResult (hR : Composes R) (r : Except StoreError α) : (ofResult r).Leaves R :=
  fun _ _ m _ => hR.refl m

theorem leaves_perform (hR : Composes R) {p : Program α} (hp : p.OnlySends) :
    (perform p).Leaves R := by
  intro σ b m h
  rw [told_perform_of_onlySends hp, run_perform]
  exact hR.refl m

theorem Leaves.bind {f : α → Operation β} (hx : x.Leaves R) (hR : Composes R)
    (hf : ∀ a, (f a).Leaves R) : (x >>= f).Leaves R := by
  intro σ b m h
  have hfirst := hx b m h
  rcases hrun : x.run b m h with ⟨e | a, m₁, h₁⟩
  · rw [hrun] at hfirst
    rw [told_bind_of_error (by rw [hrun]), run_bind, hrun]
    exact hfirst
  · rw [hrun] at hfirst
    rw [told_bind_of_ok hrun, run_bind_of_ok hrun]
    exact hR.trans hfirst (hf a b m₁ h₁)

/-- An operation of which only the effect is wanted tells and remembers the same. -/
theorem told_discard (x : Operation α) (b : Backend σ) (m : Memory) (h : Host σ) :
    (x >>= fun _ => pure ()).told b m h = x.told b m h ∧
      ((x >>= fun _ => pure ()).run b m h).memory = (x.run b m h).memory := by
  rcases hrun : x.run b m h with ⟨e | a, m₁, h₁⟩
  · rw [told_bind_of_error (by rw [hrun]), run_bind, hrun]
    exact ⟨rfl, rfl⟩
  · rw [told_bind_of_ok hrun, run_bind_of_ok hrun]
    exact ⟨List.append_nil _, rfl⟩

theorem leaves_discard {b : Backend σ} {m m₀ : Memory} {h : Host σ}
    (hx : R m₀ (x.told b m h) (x.run b m h).memory) :
    R m₀ ((x >>= fun _ => pure ()).told b m h) ((x >>= fun _ => pure ()).run b m h).memory := by
  rw [(x.told_discard b m h).1, (x.told_discard b m h).2]
  exact hx

end Leaves

end Operation

/-! ## What a client tells and remembers -/

namespace Client

variable {c : Client} {operation target : String} {idempotent : Bool}
  {attempt : Program (Except ServiceError α)} {R : Memory → List Notice → Memory → Prop}

/-- The relation holds where a wait was interrupted, of which nothing is remembered. -/
def Forgets (R : Memory → List Notice → Memory → Prop) : Prop :=
  ∀ m operation target, R m [.waitInterrupted operation target] m

theorem leaves_once (hR : Composes R) (hattempt : attempt.OnlySends) :
    (c.once operation target attempt).Leaves R := by
  refine (leaves_perform hR hattempt).bind hR fun result => ?_
  cases result with
  | ok a => exact leaves_ofResult hR (.ok a)
  | error e => exact leaves_ofResult hR (.error _)

theorem leaves_pause (hR : Composes R) (hforgets : Forgets R) (d : Duration) :
    (c.pause operation target d).Leaves R := by
  intro σ b m h
  unfold Operation.told Operation.deeds Operation.run
  rw [start_pause]
  simp only [Program.deeds, Program.run]
  rcases h.sleep d with ⟨_ | _, k⟩
  · exact hR.refl m
  · exact hforgets m operation target

theorem told_reportRetry (event : RetryEvent) (b : Backend σ) (m : Memory) (h : Host σ) :
    (c.reportRetry event).told b m h = c.report event (m.throttleCount + 1) := by
  rw [Operation.told, deeds_reportRetry, List.filterMap_map]
  exact List.filterMap_some

theorem leaves_reportRetry {event : RetryEvent}
    (hreport : ∀ m, R m (c.report event (m.throttleCount + 1)) (m.counting event.error)) :
    (c.reportRetry event).Leaves R := by
  intro σ b m h
  rw [told_reportRetry, run_reportRetry]
  exact hreport m

/-- What holds of the reports of all further failures, and of waits, holds of a request that is
tried under a policy. -/
theorem leaves_retryFrom (hR : Composes R) (hforgets : Forgets R) (hattempt : attempt.OnlySends)
    {backoff : Backoff}
    (hreport : ∀ (event : RetryEvent) m, backoff.attempts < event.attempts →
      R m (c.report event (m.throttleCount + 1)) (m.counting event.error)) :
    (c.retryFrom operation target idempotent attempt backoff).Leaves R := by
  -- on the waits that are left
  induction hn : backoff.remaining using Nat.strongRecOn generalizing backoff with
  | ind n ih =>
    rw [retryFrom]
    refine (leaves_perform hR hattempt).bind hR fun result => ?_
    split
    · exact leaves_ofResult hR (.ok _)
    · dsimp only
      split
      · split
        · exact leaves_ofResult hR (.error _)
        · rename_i e _ duration backoff' hnext
          have hlater : backoff.attempts < backoff.attempts + 1 ∧
              backoff'.attempts = backoff.attempts + 1 := by
            obtain ⟨hwait, rfl⟩ := Backoff.next?_eq_some_iff.1 hnext
            have hsucc := Backoff.toNat_succ_of_lt (Policy.delay?_isSome_iff.1 (by rw [hwait]; rfl))
            exact ⟨UInt32.lt_iff_toNat_lt.2 (by omega), rfl⟩
          refine (leaves_reportRetry fun m => hreport _ m hlater.1).bind hR fun _ =>
            (leaves_pause hR hforgets duration).bind hR fun _ => ?_
          refine ih _ (hn ▸ Backoff.remaining_lt_of_next? hnext) (fun event m hevent => ?_) rfl
          exact hreport event m (UInt32.lt_trans hlater.1 (hlater.2 ▸ hevent))
      · exact leaves_ofResult hR (.error _)

/-- A wait before writes that were left out is counted first. -/
theorem backOff_leaves (hR : Composes R) (hforgets : Forgets R) (count : UInt32) (left : Nat)
    (b : Backend σ) (m : Memory) (h : Host σ) :
    R { m with throttleCount := m.throttleCount + 1 }
      ((c.backOff operation target count left).told b m h)
      ((c.backOff operation target count left).run b m h).memory := by
  have hcount : countThrottle.run b m h =
      ⟨.ok (m.throttleCount + 1), { m with throttleCount := m.throttleCount + 1 }, h⟩ := rfl
  unfold backOff
  rw [told_bind_of_ok hcount, run_bind_of_ok hcount, show countThrottle.told b m h = [] from rfl,
    List.nil_append]
  split
  · exact hR.refl _
  · exact (leaves_pause hR hforgets _).bind hR (fun _ => leaves_ofResult hR (.ok _)) b _ h

end Client

/-! ## The life of a client -/

/-- What a client is used for. -/
inductive Errand : Type 1
  /-- a request that is tried once -/
  | once {α : Type} (operation target : String) (attempt : Program (Except ServiceError α))
    (hattempt : attempt.OnlySends)
  /-- a request that is tried under the policy -/
  | retry {α : Type} (operation target : String) (idempotent : Bool)
    (attempt : Program (Except ServiceError α)) (hattempt : attempt.OnlySends)
  /-- a wait before writes that were left out are sent again -/
  | backOff (operation target : String) (count : UInt32) (left : Nat)
  /-- any other wait -/
  | pause (operation target : String) (d : Duration)

namespace Errand

/-- What the client does, of which only the effect is wanted. -/
def perform (c : Client) : Errand → Operation Unit
  | once operation target attempt _ => c.once operation target attempt >>= fun _ => pure ()
  | retry operation target idempotent attempt _ =>
    c.retry operation target idempotent attempt >>= fun _ => pure ()
  | backOff operation target count left =>
    c.backOff operation target count left >>= fun _ => pure ()
  | pause operation target d => c.pause operation target d

/-- The errand is a wait before writes that were left out are sent again. -/
def isBackOff : Errand → Bool
  | backOff .. => true
  | once .. | retry .. | pause .. => false

end Errand

/-- A use of a client. What happens between two of them is left open: the clock may go on, others
may change the state of the backend, and the shutdown may come, so each has a host of its own. -/
structure Job (σ : Type) where
  errand : Errand
  host : Host σ

namespace Job

/-- What a client comes to in a job. -/
def run (c : Client) (b : Backend σ) (m : Memory) (j : Job σ) : Run σ Unit :=
  (j.errand.perform c).run b m j.host

/-- What a client tells in a job. -/
def told (c : Client) (b : Backend σ) (m : Memory) (j : Job σ) : List Notice :=
  (j.errand.perform c).told b m j.host

end Job

namespace Client

/-- What is remembered after some jobs, failed or not. -/
def after (c : Client) (b : Backend σ) : Memory → List (Job σ) → Memory
  | m, [] => m
  | m, j :: jobs => c.after b (j.run c b m).memory jobs

/-- What is told in some jobs. -/
def toldDuring (c : Client) (b : Backend σ) : Memory → List (Job σ) → List Notice
  | _, [] => []
  | m, j :: jobs => j.told c b m ++ c.toldDuring b (j.run c b m).memory jobs

end Client

/-! ### The count -/

/-- The count is raised by as many as there are events of throttled requests. -/
def Tallies (m : Memory) (ns : List Notice) (m' : Memory) : Prop :=
  m'.throttleCount = m.throttleCount + .ofNat (ns.countP Notice.isThrottled)

theorem composes_tallies : Composes Tallies where
  refl m := (UInt64.add_zero _).symm
  trans h h' := by
    unfold Tallies at *
    rw [List.countP_append, UInt64.ofNat_add, h', h, UInt64.add_assoc]

theorem forgets_tallies : Client.Forgets Tallies := fun _ _ _ => (UInt64.add_zero _).symm

/-- As long as the count does not start again, it is raised as a number is. -/
theorem Memory.throttleEvents_eq {m m' : Memory} {n : Nat}
    (hcount : m'.throttleCount = m.throttleCount + .ofNat n)
    (hfew : m.throttleEvents + n < UInt64.size) : m'.throttleEvents = m.throttleEvents + n := by
  unfold throttleEvents at *
  rw [hcount, UInt64.toNat_add, UInt64.toNat_ofNat', Nat.add_mod_mod]
  exact Nat.mod_eq_of_lt hfew

theorem Memory.toNat_throttleCount_succ {m : Memory} (hfew : m.throttleEvents + 1 < UInt64.size) :
    (m.throttleCount + 1).toNat = m.throttleEvents + 1 := by
  rw [UInt64.toNat_add]
  exact Nat.mod_eq_of_lt hfew

/-- What a report has: a line on a first failure perhaps, and the event. -/
theorem Client.countP_report (c : Client) (event : RetryEvent) (count : UInt64)
    (p : Notice → Bool) :
    (c.report event count).countP p =
      (if event.error.isThrottle then
        if event.attempts = 1 ∧ count < c.throttleLogLimit then
          (p (.limitsReached event.operation c.table event.error)).toNat
        else 0
      else if event.attempts = 1 then
        (p (.firstFailure event.operation event.target event.error)).toNat
      else 0) + (p (.retrying event)).toNat := by
  have hsingle (n : Notice) : [n].countP p = (p n).toNat := by
    rw [List.countP_singleton]
    cases p n <;> rfl
  unfold report
  rw [List.countP_append, hsingle]
  congr 1
  split
  · split
    · exact hsingle _
    · rfl
  · split
    · exact hsingle _
    · rfl

/-- Of a report, only the event counts. -/
theorem Client.countP_isThrottled_report (c : Client) (event : RetryEvent) (count : UInt64) :
    (c.report event count).countP Notice.isThrottled = event.error.isThrottle.toNat := by
  rw [c.countP_report]
  simp [Notice.isThrottled]

theorem Client.tallies_report (c : Client) (event : RetryEvent) (count : UInt64) (m : Memory) :
    Tallies m (c.report event count) (m.counting event.error) := by
  rw [Tallies, c.countP_isThrottled_report, Memory.counting]
  cases event.error.isThrottle with
  | true => rfl
  | false => exact (UInt64.add_zero _).symm

namespace Job

variable {c : Client} {b : Backend σ} {m : Memory}

/-- What passes from one thing to the next, and holds of waits and of reports, holds of a job, but
that a wait before writes are sent again is counted first. -/
theorem leaves_run {R : Memory → List Notice → Memory → Prop} (hR : Composes R)
    (hforgets : Client.Forgets R)
    (hreport : ∀ (event : RetryEvent) m,
      R m (c.report event (m.throttleCount + 1)) (m.counting event.error)) (j : Job σ) :
    R (if j.errand.isBackOff then { m with throttleCount := m.throttleCount + 1 } else m)
      (j.told c b m) (j.run c b m).memory := by
  obtain ⟨errand, h⟩ := j
  cases errand with
  | once operation target attempt hattempt =>
    exact leaves_discard (Client.leaves_once hR hattempt b m h)
  | retry operation target idempotent attempt hattempt =>
    exact leaves_discard
      (Client.leaves_retryFrom hR hforgets hattempt (fun event m _ => hreport event m) b m h)
  | backOff operation target count left =>
    exact leaves_discard (Client.backOff_leaves hR hforgets count left b m h)
  | pause operation target d => exact Client.leaves_pause hR hforgets d b m h

/-- The events that are counted in a job: those of throttled requests, and the wait before writes
that were left out are sent again. -/
def counted (c : Client) (b : Backend σ) (m : Memory) (j : Job σ) : Nat :=
  (j.told c b m).countP Notice.isThrottled + if j.errand.isBackOff then 1 else 0

/-- A job raises the count by the events that are counted in it. -/
theorem throttleCount_run (j : Job σ) :
    (j.run c b m).memory.throttleCount = m.throttleCount + .ofNat (j.counted c b m) := by
  have htally := j.leaves_run (b := b) (m := m) composes_tallies forgets_tallies
    fun event m => c.tallies_report event _ m
  unfold Tallies at htally
  unfold counted
  split at htally
  · rw [htally, if_pos ‹_›, Nat.add_comm, UInt64.ofNat_add, ← UInt64.add_assoc]
    rfl
  · rw [htally, if_neg ‹_›, Nat.add_zero]

end Job

/-! ### The warnings -/

/-- As long as the count does not start again, each warning that a table has too little capacity uses
up one of the numbers below the limit. -/
def Spends (limit : Nat) (m : Memory) (ns : List Notice) (m' : Memory) : Prop :=
  Tallies m ns m' ∧ (m.throttleEvents + ns.countP Notice.isThrottled < UInt64.size →
    ns.countP Notice.isCapacityWarning + min m.throttleEvents (limit - 1) ≤
      min m'.throttleEvents (limit - 1))

theorem composes_spends (limit : Nat) : Composes (Spends limit) where
  refl m := ⟨composes_tallies.refl m, fun _ => by simp⟩
  trans h h' := by
    refine ⟨composes_tallies.trans h.1 h'.1, fun hfew => ?_⟩
    rw [List.countP_append] at hfew ⊢
    have hcount := Memory.throttleEvents_eq h.1 (by omega)
    have hfirst := h.2 (by omega)
    have hsecond := h'.2 (by omega)
    omega

theorem forgets_spends (limit : Nat) : Client.Forgets (Spends limit) :=
  fun m operation target =>
    ⟨forgets_tallies m operation target, fun _ => by simp [Notice.isCapacityWarning]⟩

/-- A report has the warning if it is on a first failure, and the count is below the limit. -/
theorem Client.countP_isCapacityWarning_report (c : Client) (event : RetryEvent) (count : UInt64) :
    (c.report event count).countP Notice.isCapacityWarning =
      if event.error.isThrottle ∧ event.attempts = 1 ∧ count < c.throttleLogLimit then 1 else 0 := by
  rw [c.countP_report]
  simp [Notice.isCapacityWarning, ite_and]

theorem Client.spends_report (c : Client) (event : RetryEvent) (m : Memory) :
    Spends c.throttleLogLimit.toNat m (c.report event (m.throttleCount + 1))
      (m.counting event.error) := by
  have htallies := c.tallies_report event (m.throttleCount + 1) m
  refine ⟨htallies, fun hfew => ?_⟩
  have hcount := Memory.throttleEvents_eq htallies hfew
  rw [countP_isThrottled_report] at hfew hcount
  rw [hcount, countP_isCapacityWarning_report]
  split
  · rename_i hwarns
    obtain ⟨hthrottle, -, hbelow⟩ := hwarns
    rw [hthrottle, Bool.toNat_true] at hfew ⊢
    rw [UInt64.lt_iff_toNat_lt, Memory.toNat_throttleCount_succ hfew] at hbelow
    omega
  · omega

namespace Job

variable {c : Client} {b : Backend σ} {m : Memory}

/-- As long as the count does not start again, the warnings of a job use up numbers below the
limit. -/
theorem warnings_run (j : Job σ) (hfew : m.throttleEvents + j.counted c b m < UInt64.size) :
    (j.told c b m).countP Notice.isCapacityWarning +
        min m.throttleEvents (c.throttleLogLimit.toNat - 1) ≤
      min (j.run c b m).memory.throttleEvents (c.throttleLogLimit.toNat - 1) := by
  have hspends := (j.leaves_run (b := b) (m := m) (composes_spends c.throttleLogLimit.toNat)
    (forgets_spends _) c.spends_report).2
  unfold counted at hfew
  split at hspends
  · rename_i hback
    rw [if_pos hback] at hfew
    have hraised := Memory.toNat_throttleCount_succ (m := m) (by omega)
    rw [Memory.throttleEvents, hraised] at hspends
    have hwarnings := hspends (by omega)
    omega
  · rename_i hback
    rw [if_neg hback] at hfew
    exact hspends hfew

end Job

/-! ### The lines in the log -/

/-- Nothing of what is told is a line about a request that is tried again. -/
def Quiet (_ : Memory) (ns : List Notice) (_ : Memory) : Prop := ns.filter Notice.isRetryLine = []

theorem composes_quiet : Composes Quiet where
  refl _ := rfl
  trans h h' := by
    unfold Quiet at *
    rw [List.filter_append, h, h']
    rfl

theorem forgets_quiet : Client.Forgets Quiet := fun _ _ _ => rfl

/-- Only the report of a first failure leaves a line. -/
theorem Client.quiet_report {c : Client} {event : RetryEvent} (h : event.attempts ≠ 1)
    (count : UInt64) (m m' : Memory) : Quiet m (c.report event count) m' := by
  unfold Quiet report
  simp only [h, false_and, if_false]
  split
  · rfl
  · rfl

/-- A request that has failed once tells no more lines. -/
theorem Client.quiet_retryFrom {c : Client} {operation target : String} {idempotent : Bool}
    {attempt : Program (Except ServiceError α)} (hattempt : attempt.OnlySends) {backoff : Backoff}
    (hfailed : 0 < backoff.attempts) :
    (c.retryFrom operation target idempotent attempt backoff).Leaves Quiet := by
  refine leaves_retryFrom composes_quiet forgets_quiet hattempt fun event m hevent => ?_
  refine quiet_report (fun hfirst => ?_) _ _ _
  rw [hfirst, UInt32.lt_iff_toNat_lt] at hevent
  rw [UInt32.lt_iff_toNat_lt] at hfailed
  simp only [UInt32.reduceToNat] at hevent hfailed
  omega

/-- The line `line` is about the failure of the first attempt of a job: the warning that its table
has too little capacity, while the count that this failure has raised is below the limit, or the
information that it has failed. -/
def Job.IsOnFirstFailure (c : Client) (b : Backend σ) (m : Memory) (j : Job σ) (line : Notice) :
    Prop :=
  ∃ (α : Type) (operation target : String) (idempotent : Bool)
    (attempt : Program (Except ServiceError α)) (hattempt : attempt.OnlySends) (e : ServiceError),
    j.errand = .retry operation target idempotent attempt hattempt ∧
    (attempt.run b j.host).1 = .error e ∧
    (line = .limitsReached operation c.table e ∧ e.isThrottle = true ∧
        m.throttleCount + 1 < c.throttleLogLimit ∨
      line = .firstFailure operation target e ∧ e.isThrottle = false)

/-- The lines of the report of a first failure. -/
theorem Client.filter_isRetryLine_report (c : Client) {event : RetryEvent}
    (hfirst : event.attempts = 1) (count : UInt64) :
    (c.report event count).filter Notice.isRetryLine =
      if event.error.isThrottle then
        if count < c.throttleLogLimit then
          [.limitsReached event.operation c.table event.error]
        else []
      else [.firstFailure event.operation event.target event.error] := by
  unfold report
  simp only [hfirst, true_and, if_true]
  split
  · split
    · rfl
    · rfl
  · rfl

/-- Of a request that is tried again, the lines are those of the report of its first failure. -/
theorem Client.filter_isRetryLine_told_retry (c : Client) (operation target : String)
    (idempotent : Bool) {attempt : Program (Except ServiceError α)} (hattempt : attempt.OnlySends)
    (b : Backend σ) (m : Memory) (h : Host σ) :
    ((c.retry operation target idempotent attempt).told b m h).filter Notice.isRetryLine = [] ∨
      ∃ e, (attempt.run b h).1 = .error e ∧
        ((c.retry operation target idempotent attempt).told b m h).filter Notice.isRetryLine =
          (c.report ⟨operation, target, e, 1, idempotent⟩ (m.throttleCount + 1)).filter
            Notice.isRetryLine := by
  have htold : (c.retry operation target idempotent attempt).told b m h =
      (c.afterAttempt operation target idempotent attempt ⟨c.policy, 0⟩ (attempt.run b h).1).told b
        m (attempt.run b h).2 := by
    rw [retry, retryFrom_eq, told_bind_of_ok (run_perform ..), told_perform_of_onlySends hattempt]
    rfl
  rw [htold]
  rcases hrun : attempt.run b h with ⟨e | a, k⟩
  · dsimp only [afterAttempt]
    split
    · split
      · exact .inl rfl
      · rename_i duration backoff' hnext
        obtain ⟨hwait, rfl⟩ := Backoff.next?_eq_some_iff.1 hnext
        refine .inr ⟨e, rfl, ?_⟩
        have hrest : (c.pause operation target duration >>= fun _ =>
            c.retryFrom operation target idempotent attempt ⟨c.policy, 0 + 1⟩).Leaves Quiet :=
          (leaves_pause composes_quiet forgets_quiet duration).bind composes_quiet fun _ =>
            quiet_retryFrom hattempt (show (0 : UInt32) < 0 + 1 by decide)
        rw [told_bind_of_ok (run_reportRetry ..), told_reportRetry, List.filter_append,
          show _ = [] from hrest b _ _, List.append_nil]
        rfl
    · exact .inl rfl
  · exact .inl rfl

/-- A job leaves one line at most about requests that are tried again, which is about the failure of
its first attempt. -/
theorem Job.lines_told {c : Client} {b : Backend σ} {m : Memory} (j : Job σ) :
    (j.told c b m).filter Notice.isRetryLine = [] ∨
      ∃ line, (j.told c b m).filter Notice.isRetryLine = [line] ∧
        j.IsOnFirstFailure c b m line := by
  obtain ⟨errand, h⟩ := j
  cases errand with
  | once operation target attempt hattempt =>
    rw [Job.told, Errand.perform, (told_discard _ b m h).1]
    exact .inl (Client.leaves_once composes_quiet hattempt b m h)
  | backOff operation target count left =>
    rw [Job.told, Errand.perform, (told_discard _ b m h).1]
    exact .inl (Client.backOff_leaves composes_quiet forgets_quiet count left b m h)
  | pause operation target d =>
    exact .inl (Client.leaves_pause composes_quiet forgets_quiet d b m h)
  | retry operation target idempotent attempt hattempt =>
    rw [Job.told, Errand.perform, (told_discard _ b m h).1]
    rcases c.filter_isRetryLine_told_retry operation target idempotent hattempt b m h with
      hnone | ⟨e, he, hlines⟩
    · exact .inl hnone
    · rw [hlines, Client.filter_isRetryLine_report c rfl]
      dsimp only
      split
      · rename_i hthrottle
        split
        · rename_i hbelow
          exact .inr ⟨_, rfl, _, operation, target, idempotent, attempt, hattempt, e, rfl, he,
            .inl ⟨rfl, hthrottle, hbelow⟩⟩
        · exact .inl rfl
      · rename_i hthrottle
        exact .inr ⟨_, rfl, _, operation, target, idempotent, attempt, hattempt, e, rfl, he,
          .inr ⟨rfl, by simpa using hthrottle⟩⟩

/-! ## The life of a client -/

namespace Client

variable {c : Client} {b : Backend σ} {m : Memory}

/-- The events that are counted in some jobs: those of throttled requests, and the waits before writes
that were left out are sent again. -/
def countedDuring (c : Client) (b : Backend σ) (m : Memory) (jobs : List (Job σ)) : Nat :=
  (c.toldDuring b m jobs).countP Notice.isThrottled + jobs.countP (·.errand.isBackOff)

theorem countedDuring_cons (j : Job σ) (jobs : List (Job σ)) :
    c.countedDuring b m (j :: jobs) =
      j.counted c b m + c.countedDuring b (j.run c b m).memory jobs := by
  unfold countedDuring Job.counted
  rw [toldDuring, List.countP_append, List.countP_cons]
  omega

theorem throttleCount_after (jobs : List (Job σ)) :
    (c.after b m jobs).throttleCount = m.throttleCount + .ofNat (c.countedDuring b m jobs) := by
  induction jobs generalizing m with
  | nil => exact (UInt64.add_zero _).symm
  | cons j jobs ih =>
    rw [after, ih, j.throttleCount_run, countedDuring_cons, UInt64.ofNat_add, UInt64.add_assoc]

theorem warnings_after (jobs : List (Job σ))
    (hfew : m.throttleEvents + c.countedDuring b m jobs < UInt64.size) :
    (c.toldDuring b m jobs).countP Notice.isCapacityWarning +
        min m.throttleEvents (c.throttleLogLimit.toNat - 1) ≤
      min (c.after b m jobs).throttleEvents (c.throttleLogLimit.toNat - 1) := by
  induction jobs generalizing m with
  | nil => exact Nat.le_of_eq (Nat.zero_add _)
  | cons j jobs ih =>
    rw [countedDuring_cons] at hfew
    have hcount := Memory.throttleEvents_eq (j.throttleCount_run (c := c) (b := b) (m := m))
      (by omega)
    have hfirst := j.warnings_run (c := c) (b := b) (m := m) (by omega)
    have hrest := ih (m := (j.run c b m).memory) (by omega)
    rw [toldDuring, after, List.countP_append]
    omega

/-- The jobs before some others are counted first. -/
theorem countedDuring_le_append (earlier later : List (Job σ)) :
    c.countedDuring b m earlier ≤ c.countedDuring b m (earlier ++ later) := by
  induction earlier generalizing m with
  | nil => exact Nat.zero_le _
  | cons j earlier ih =>
    rw [List.cons_append, countedDuring_cons, countedDuring_cons]
    exact Nat.add_le_add_left ih _

/-- **The count and the warnings over the life of a client**, whatever its requests come to. The
count is raised by the events of throttled requests and by the waits before writes are sent again,
and by nothing else; it has 64 bits and starts again at zero. As long as there are too few events for
that, the count is their number and is never lowered, and there are fewer warnings than the limit,
less what had been counted before. And whatever the client is used for next, at most one line is
logged about a request that is tried again, on the failure of its first attempt: the warning only if
the count that this failure raises is below the limit. -/
theorem throttling_accounted (c : Client) (b : Backend σ) (m : Memory) (jobs : List (Job σ)) :
    (c.after b m jobs).throttleCount = m.throttleCount + .ofNat (c.countedDuring b m jobs) ∧
      (m.throttleEvents + c.countedDuring b m jobs < UInt64.size →
        (c.after b m jobs).throttleEvents = m.throttleEvents + c.countedDuring b m jobs ∧
          (∀ earlier later, jobs = earlier ++ later →
            (c.after b m earlier).throttleEvents ≤ (c.after b m jobs).throttleEvents) ∧
          (c.toldDuring b m jobs).countP Notice.isCapacityWarning ≤
            c.throttleLogLimit.toNat - 1 - m.throttleEvents) ∧
      ∀ j : Job σ, (j.told c b (c.after b m jobs)).filter Notice.isRetryLine = [] ∨
        ∃ line, (j.told c b (c.after b m jobs)).filter Notice.isRetryLine = [line] ∧
          j.IsOnFirstFailure c b (c.after b m jobs) line := by
  refine ⟨throttleCount_after jobs, fun hfew => ?_, fun j => j.lines_told⟩
  have hcount := Memory.throttleEvents_eq (throttleCount_after jobs) hfew
  refine ⟨hcount, ?_, ?_⟩
  · rintro earlier later rfl
    have hle := countedDuring_le_append (c := c) (b := b) (m := m) earlier later
    rw [hcount, Memory.throttleEvents_eq (throttleCount_after earlier) (by omega)]
    exact Nat.add_le_add_left hle _
  · have hwarnings := warnings_after jobs hfew
    omega

end Client

/-! ## A sample -/

namespace Sample

/-- The look-up that is throttled first, and then lost. -/
def lookUpJob : Job Nat :=
  ⟨.retry "get" "/b/d" true unsteadyLookUp (Program.onlySends_ask _), freshHost⟩

/-- The wait before two writes that were left out are sent again. -/
def backOffJob : Job Nat := ⟨.backOff "put" "meta" 0 2, freshHost⟩

/-- Two look-ups with such a wait between them. Of the two that are throttled only the first one is
below the limit. -/
theorem throttling_accounted_thrice :
    let c : Client := { steadyClient with throttleLogLimit := 3 }
    let b := Backend.replaying (.getItem "meta" ⟨"/b", "d"⟩) unsteady
    let jobs := [lookUpJob, backOffJob, lookUpJob]
    ({} : Memory).throttleEvents + c.countedDuring b {} jobs < UInt64.size ∧
      (c.after b {} jobs).throttleEvents = 3 ∧
      (c.after b {} [lookUpJob]).throttleEvents ≤ (c.after b {} jobs).throttleEvents ∧
      (c.toldDuring b {} jobs).countP Notice.isCapacityWarning = 1 ∧
      (c.toldDuring b {} jobs).countP Notice.isCapacityWarning ≤ 2 := by
  intro c b jobs
  have hcounted : c.countedDuring b {} jobs = 3 := by decide +kernel
  have hfew : ({} : Memory).throttleEvents + c.countedDuring b {} jobs < UInt64.size := by
    rw [hcounted]
    decide
  obtain ⟨hcount, hgrows, hwarnings⟩ := (c.throttling_accounted b {} jobs).2.1 hfew
  rw [hcounted] at hcount
  exact ⟨hfew, hcount, hgrows [lookUpJob] [backOffJob, lookUpJob] rfl, by decide +kernel, hwarnings⟩

end Sample

end TableTree
