import TableTree.Proofs.Deeds

/-!
# Pauses of a store that is closed

When a store is closed, each wait that would take time is interrupted at once. An operation heeds
that if it ends there with the failure, after it has given notice and without a further request. On a
closed store such an operation does what it does on an open one, up to the first pause.

Results:

* `Program.untilWait`: what is left of a program at its first wait, and the host there;
  `Program.run_untilWait` says that the run goes on from there.
* `Program.Heeds`, `Operation.Heeds`: operations that end when a pause is interrupted;
  `Operation.Heeds.bind` and `Operation.Heeds.outcome_bind` for one operation after the other.
* `Client.heeds_retry`, `Client.heeds_writeAll`: requests under a policy, and writes in batches.
* `Operation.StopsAtFirstPause`, `Operation.Heeds.stopsAtFirstPause`: their runs on a closed store.
-/

namespace TableTree

open Operation

variable {σ α β : Type}

/-! ## Until the first wait -/

namespace Program

/-- What is left of a program when it comes to its first wait, and the host at that moment. A
program that comes to none runs to its end. -/
def untilWait (b : Backend σ) : Program α → Host σ → Program α × Host σ
  | .done a, h => (.done a, h)
  | .send r next, h =>
    let (answer, state) := b.answer r h.state
    (next answer).untilWait b { h with state := state }
  | .wait d next, h => (.wait d next, h)
  | .clock next, h => (next h.now).untilWait b h
  | .tell n next, h => next.untilWait b { h with notices := h.notices ++ [n] }

/-- A run goes on from its first wait. -/
theorem run_untilWait (b : Backend σ) (p : Program α) (h : Host σ) :
    (p.untilWait b h).1.run b (p.untilWait b h).2 = p.run b h := by
  induction p generalizing h with
  | done a => rfl
  | send r next ih => exact ih _ _
  | wait d next => rfl
  | clock next ih => exact ih _ h
  | tell n next ih => exact ih _

/-- Until the first wait it makes no difference whether the store is closed, and no time passes. -/
theorem untilWait_closesAt (b : Backend σ) (p : Program α) (h : Host σ) (t? : Option Nat) :
    p.untilWait b { h with closesAt := t? } =
        ((p.untilWait b h).1, { (p.untilWait b h).2 with closesAt := t? }) ∧
      (p.untilWait b h).2.elapsed = h.elapsed ∧ (p.untilWait b h).2.closesAt = h.closesAt := by
  induction p generalizing h with
  | done a => exact ⟨rfl, rfl, rfl⟩
  | send r next ih => exact ih (b.answer r h.state).1 { h with state := (b.answer r h.state).2 }
  | wait d next => exact ⟨rfl, rfl, rfl⟩
  | clock next ih => exact ih h.now h
  | tell n next ih => exact ih { h with notices := h.notices ++ [n] }

/-- What is left at the first wait has ended or waits. It waits if the run has a wait at all. -/
theorem untilWait_cases (b : Backend σ) (p : Program α) (h : Host σ) :
    (∃ a, (p.untilWait b h).1 = .done a ∧ ∀ d ending, Deed.waited d ending ∉ p.deeds b h) ∨
      ∃ d next, (p.untilWait b h).1 = .wait d next ∧
        ∃ ending, Deed.waited d ending ∈ p.deeds b h := by
  induction p generalizing h with
  | done a => exact .inl ⟨a, rfl, fun _ _ => List.not_mem_nil⟩
  | send r next ih =>
    have hrest := ih (b.answer r h.state).1 { h with state := (b.answer r h.state).2 }
    simpa only [untilWait, deeds, List.mem_cons, reduceCtorEq, false_or] using hrest
  | wait d next => exact .inr ⟨d, next, rfl, _, List.mem_cons_self⟩
  | clock next ih =>
    simpa only [untilWait, deeds, List.mem_cons, reduceCtorEq, false_or] using ih h.now h
  | tell n next ih =>
    have hrest := ih { h with notices := h.notices ++ [n] }
    simpa only [untilWait, deeds, List.mem_cons, reduceCtorEq, false_or] using hrest

/-! ## Programs that heed the shutdown -/

/-- Each wait of the program takes time. One that is interrupted is a pause of the client: the
program gives notice of that and ends with the failure. -/
def Heeds (c : Client) : Program (Except StoreError α × Memory) → Prop
  | .done _ => True
  | .send _ next => ∀ answer, (next answer).Heeds c
  | .wait d next => 0 < d.nanos ∧ (next .elapsed).Heeds c ∧
      ∃ operation target m, next .interrupted = .tell (.waitInterrupted operation target)
        (.done (.error (.interrupted (c.site operation target)), m))
  | .clock next => ∀ now, (next now).Heeds c
  | .tell _ next => next.Heeds c

theorem OnlySends.heeds_bind {c : Client} {p : Program α} (hp : p.OnlySends)
    {f : α → Program (Except StoreError β × Memory)} (hf : ∀ a, (f a).Heeds c) :
    (p >>= f).Heeds c := by
  show (p.bind f).Heeds c
  induction p with
  | done a => exact hf a
  | send r next ih => exact fun answer => ih answer (hp answer)
  | wait d next => exact hp.elim
  | clock next => exact hp.elim
  | tell n next => exact hp.elim

/-- One program after another, where the second ends at once with an interruption of the first. -/
theorem Heeds.bind {c : Client} {p : Program (Except StoreError α × Memory)} (hp : p.Heeds c)
    {f : Except StoreError α × Memory → Program (Except StoreError β × Memory)}
    (hf : ∀ r, (f r).Heeds c)
    (hends : ∀ site m, ∃ m', f (.error (.interrupted site), m) =
      .done (.error (.interrupted site), m')) : (p >>= f).Heeds c := by
  show (p.bind f).Heeds c
  induction p with
  | done r => exact hf r
  | send r next ih => exact fun answer => ih answer (hp answer)
  | wait d next ih =>
    obtain ⟨hd, hrest, operation, target, m, hnext⟩ := hp
    obtain ⟨m', hm'⟩ := hends (c.site operation target) m
    refine ⟨hd, ih _ hrest, operation, target, m', ?_⟩
    show (next .interrupted).bind f = _
    rw [hnext]
    exact congrArg _ hm'
  | clock next ih => exact fun now => ih now (hp now)
  | tell n next ih => exact ih hp

theorem Heeds.untilWait {c : Client} {p : Program (Except StoreError α × Memory)} (hp : p.Heeds c)
    (b : Backend σ) (h : Host σ) : (p.untilWait b h).1.Heeds c := by
  induction p generalizing h with
  | done r => trivial
  | send r next ih => exact ih _ (hp _) _
  | wait d next => exact hp
  | clock next ih => exact ih _ (hp _) h
  | tell n next ih => exact ih hp _

end Program

/-! ## Operations that heed the shutdown -/

namespace Operation

/-- The operation takes time in each pause of the client, and ends when one is interrupted. -/
def Heeds (c : Client) (x : Operation α) : Prop := ∀ m, (x.start m).Heeds c

section Heeds

variable {c : Client} {x : Operation α}

theorem heeds_ofResult (r : Except StoreError α) : (ofResult r).Heeds c := fun _ => trivial

theorem heeds_pure (a : α) : (pure a : Operation α).Heeds c := fun _ => trivial

theorem heeds_throw (e : StoreError) : (throw e : Operation α).Heeds c := fun _ => trivial

theorem heeds_perform {p : Program α} (hp : p.OnlySends) : (perform p).Heeds c := by
  intro m
  rw [start_perform]
  exact hp.heeds_bind fun _ => trivial

theorem heeds_now : (perform .now).Heeds c := fun _ _ => trivial

theorem heeds_modify (f : Memory → Memory) : (modify f : Operation Unit).Heeds c := fun _ => trivial

theorem heeds_known {f : Memory → Operation α} (hf : ∀ m, (f m).Heeds c) :
    (getThe Memory >>= f).Heeds c :=
  fun m => hf m m

theorem Heeds.bind {f : α → Operation β} (hx : x.Heeds c) (hf : ∀ a, (f a).Heeds c) :
    (x >>= f).Heeds c := by
  intro m
  rw [start_bind]
  refine (hx m).bind (fun r => ?_) fun site m => ⟨m, rfl⟩
  rcases r with ⟨_ | a, m₁⟩
  · trivial
  · exact hf a m₁

/-- An operation whose failure is looked at, and which ends with it when it is an interruption. -/
theorem Heeds.outcome_bind {f : Except StoreError α → Operation β} (hx : x.Heeds c)
    (hf : ∀ r, (f r).Heeds c)
    (hends : ∀ site m, ∃ m', (f (.error (.interrupted site))).start m =
      .done (.error (.interrupted site), m')) : (outcome x >>= f).Heeds c := by
  intro m
  have hstart : (outcome x >>= f).start m = x.start m >>= fun r => (f r.1).start r.2 := by
    rw [start_bind]
    show (x.start m >>= _) >>= _ = _
    rw [bind_assoc]
    rfl
  rw [hstart]
  exact (hx m).bind (fun r => hf r.1 r.2) hends

theorem heeds_forM {f : α → Operation Unit} (hf : ∀ a, (f a).Heeds c) (xs : List α) :
    (xs.forM f).Heeds c := by
  induction xs with
  | nil => exact heeds_pure ()
  | cons x xs ih =>
    rw [List.forM_eq_forM, List.forM_cons]
    exact (hf x).bind fun _ => ih

end Heeds

end Operation

/-! ## Calling the service -/

namespace Client

variable {c : Client} {operation target : String} {idempotent : Bool}
  {attempt : Program (Except ServiceError α)}

/-- All waits of the policy take time. -/
def IsPatient (c : Client) : Prop := ∀ count d, c.policy.delay? count = some d → 0 < d.nanos

theorem heeds_pause {d : Duration} (hd : 0 < d.nanos) :
    (c.pause operation target d).Heeds c := by
  intro m
  rw [start_pause]
  exact ⟨hd, trivial, operation, target, m, rfl⟩

theorem heeds_once (hattempt : attempt.OnlySends) :
    (c.once operation target attempt).Heeds c := by
  refine (heeds_perform hattempt).bind fun result => ?_
  cases result with
  | ok a => exact heeds_pure a
  | error e => exact heeds_throw _

theorem heeds_reportRetry (event : RetryEvent) : (c.reportRetry event).Heeds c := by
  intro m
  rw [start_reportRetry]
  induction c.report event (m.throttleCount + 1) with
  | nil => trivial
  | cons n ns ih => exact ih

theorem heeds_retryFrom (hc : c.IsPatient) (hattempt : attempt.OnlySends) {backoff : Backoff}
    (hpolicy : backoff.policy = c.policy) :
    (c.retryFrom operation target idempotent attempt backoff).Heeds c := by
  -- on the waits that are left
  induction hn : backoff.remaining using Nat.strongRecOn generalizing backoff with
  | ind n ih =>
    rw [retryFrom]
    refine (heeds_perform hattempt).bind fun result => ?_
    split
    · exact heeds_pure _
    · dsimp only
      split
      · split
        · exact heeds_throw _
        · rename_i duration backoff' hnext
          have hless := hn ▸ Backoff.remaining_lt_of_next? hnext
          obtain ⟨hwait, rfl⟩ := Backoff.next?_eq_some_iff.1 hnext
          rw [hpolicy] at hwait
          exact (heeds_reportRetry _).bind fun _ => (heeds_pause (hc _ _ hwait)).bind fun _ =>
            ih _ hless hpolicy rfl
      · exact heeds_throw _

theorem heeds_retry (hc : c.IsPatient) (hattempt : attempt.OnlySends) :
    (c.retry operation target idempotent attempt).Heeds c :=
  heeds_retryFrom hc hattempt rfl

theorem heeds_backOff (hc : c.IsPatient) (count : UInt32) (left : Nat) :
    (c.backOff operation target count left).Heeds c := by
  have hcount : countThrottle.Heeds c := fun _ => trivial
  unfold backOff
  refine hcount.bind fun _ => ?_
  split
  · exact heeds_throw _
  · rename_i d hwait
    exact (heeds_pause (hc _ _ hwait)).bind fun _ => heeds_pure _

theorem heeds_sendBatch (hc : c.IsPatient) (writes : List Write) : (c.sendBatch writes).Heeds c :=
  heeds_retry hc (Program.onlySends_ask _)

theorem heeds_resend (hc : c.IsPatient) (count : UInt32) (left : List Write) :
    (c.resend count left).Heeds c := by
  -- on the waits that the policy still allows
  induction hn : c.policy.maxRetries.toNat - count.toNat using Nat.strongRecOn
    generalizing count left with
  | ind n ih =>
    rw [resend]
    split
    · exact heeds_pure ()
    · refine (heeds_backOff hc count left.length).bind fun hlt =>
        (heeds_sendBatch hc left).bind fun left' => ?_
      have hlt' := UInt32.lt_iff_toNat_lt.1 hlt.down
      have hsucc := Backoff.toNat_succ_of_lt hlt.down
      exact ih _ (by omega) _ _ rfl

/-- An interruption before the rest of a slice goes out ends the whole list of writes. -/
theorem heeds_writeAll (hc : c.IsPatient) (limit : Nat) (deletes : List Key) (puts : List Item) :
    (c.writeAll limit deletes puts).Heeds c :=
  (heeds_forM (fun writes => (heeds_sendBatch hc writes).bind fun left =>
    heeds_resend hc 0 left) _).bind fun _ => heeds_pure _

end Client

/-! ## On a closed store -/

/-- The operation has no pause on its way. -/
def Operation.NeverPauses (b : Backend σ) (x : Operation α) (m : Memory) (h : Host σ) : Prop :=
  ∀ d ending, Deed.waited d ending ∉ x.deeds b m h

/-- The first pause on the way of the operation is one of the client for `operation` and `target`,
and `k` is the host at that moment. -/
def Operation.FirstPause (b : Backend σ) (c : Client) (x : Operation α) (m : Memory) (h : Host σ)
    (operation target : String) (k : Host σ) : Prop :=
  ∃ (d : Duration) (m₁ : Memory)
    (further : Except StoreError Unit × Memory → Program (Except StoreError α × Memory)),
    (x.start m).untilWait b h = ((c.pause operation target d).start m₁ >>= further, k)

/-- What follows a pause. -/
theorem Client.start_pause_bind {c : Client} {operation target : String} {d : Duration}
    {m : Memory} (f : Except StoreError Unit × Memory → Program α) :
    ((c.pause operation target d).start m >>= f) = .wait d fun
      | .elapsed => f (.ok (), m)
      | .interrupted => .tell (.waitInterrupted operation target)
          (f (.error (.interrupted (c.site operation target)), m)) := by
  rw [start_pause]
  show Program.wait d _ = _
  congr 1
  funext ending
  cases ending with
  | elapsed => rfl
  | interrupted => rfl

/-- What an operation comes to on a host whose store is closed, next to what it comes to on the open
store from the same state. If it has no pause on the open store, it comes to the same on both, and
leaves the backend alike. If it has one, it fails on the closed store with the interruption of that
pause, and leaves the backend as it is on the open store at that moment. One of the two is the case,
and no time passes in either. -/
structure Operation.StopsAtFirstPause (b : Backend σ) (c : Client) (x : Operation α) (m : Memory)
    (h : Host σ) : Prop where
  elapsed_eq : (x.run b m h).host.elapsed = h.elapsed
  of_neverPauses : x.NeverPauses b m { h with closesAt := none } →
    (x.run b m h).outcome = (x.run b m { h with closesAt := none }).outcome ∧
      (x.run b m h).host.state = (x.run b m { h with closesAt := none }).host.state
  of_firstPause : ∀ operation target k,
    x.FirstPause b c m { h with closesAt := none } operation target k →
      (x.run b m h).outcome = .error (.interrupted (c.site operation target)) ∧
        (x.run b m h).host.state = k.state
  neverPauses_or_firstPause : x.NeverPauses b m { h with closesAt := none } ∨
    ∃ operation target k, x.FirstPause b c m { h with closesAt := none } operation target k

/-- On a closed store a wait that would take time takes none. -/
theorem Host.sleep_of_closed {h : Host σ} {t : Nat} (hclosed : h.closesAt = some t)
    (ht : t ≤ h.elapsed) {d : Duration} (hd : 0 < d.nanos) : h.sleep d = (.interrupted, h) := by
  have hlonger : h.elapsed < h.ending d := Nat.lt_add_of_pos_right (h.timer.millis_pos d hd)
  have hstays : { h with elapsed := max h.elapsed t } = h := by rw [Nat.max_eq_left ht]
  unfold sleep
  simp only [hclosed]
  rw [if_neg (by omega), if_pos ⟨hlonger, Nat.lt_of_le_of_lt ht hlonger⟩]
  exact congrArg _ (hclosed ▸ hstays)

namespace Program

variable {c : Client} {p : Program (Except StoreError α × Memory)} {b : Backend σ} {h : Host σ}
  {t : Nat}

/-- A closed store does what an open one does, until the first wait. -/
theorem run_closed_eq (hclosed : h.closesAt = some t) :
    p.run b h = (p.untilWait b { h with closesAt := none }).1.run b
      { (p.untilWait b { h with closesAt := none }).2 with closesAt := some t } := by
  have hsame : { ({ h with closesAt := none } : Host σ) with closesAt := some t } = h := by
    rw [← hclosed]
  obtain ⟨hclosesAt, -⟩ := p.untilWait_closesAt b { h with closesAt := none } (some t)
  rw [hsame] at hclosesAt
  rw [← p.run_untilWait b h, hclosesAt]

/-- On a closed store a program that waits goes on as if it were interrupted. The host is a variable
here: of a host given by its fields the kernel would work out when the timer goes off. -/
theorem run_wait_of_closed {next : WaitEnd → Program α} {d : Duration}
    (hclosed : h.closesAt = some t) (ht : t ≤ h.elapsed) (hd : 0 < d.nanos) :
    (Program.wait d next).run b h = (next .interrupted).run b h := by
  rw [run, Host.sleep_of_closed hclosed ht hd]

/-- On a closed store a program that has come to a wait on the open one is interrupted there. -/
theorem run_closed_of_wait (hclosed : h.closesAt = some t) (ht : t ≤ h.elapsed) {k : Host σ}
    {d : Duration} {next : WaitEnd → Program (Except StoreError α × Memory)} (hd : 0 < d.nanos)
    (hleft : p.untilWait b { h with closesAt := none } = (.wait d next, k)) :
    p.run b h = (next .interrupted).run b { k with closesAt := some t } := by
  obtain ⟨-, helapsed, -⟩ := p.untilWait_closesAt b { h with closesAt := none } none
  rw [hleft] at helapsed
  have hstill : t ≤ k.elapsed := Nat.le_trans ht (Nat.le_of_eq helapsed.symm)
  have hrun := run_closed_eq (p := p) (b := b) hclosed
  rw [hleft] at hrun
  exact hrun.trans (run_wait_of_closed (h := { k with closesAt := some t }) rfl hstill hd)

end Program

namespace Operation

variable {c : Client} {x : Operation α} {b : Backend σ} {m : Memory} {h k : Host σ} {t : Nat}

/-- An operation that has ended without a wait on the open store ends alike on the closed one. -/
theorem run_closed_of_done (hclosed : h.closesAt = some t) {r : Except StoreError α × Memory}
    (hleft : (x.start m).untilWait b { h with closesAt := none } = (.done r, k)) :
    x.run b m h = ⟨r.1, r.2, { k with closesAt := some t }⟩ ∧
      x.run b m { h with closesAt := none } = ⟨r.1, r.2, k⟩ := by
  have hopen := (x.start m).run_untilWait b { h with closesAt := none }
  rw [hleft] at hopen
  constructor
  · rw [Operation.run, Program.run_closed_eq hclosed, hleft]
    rfl
  · rw [Operation.run, ← hopen]
    rfl

/-- An operation that has come to a wait on the open store is interrupted there on the closed
one. -/
theorem run_closed_of_wait (hclosed : h.closesAt = some t) (ht : t ≤ h.elapsed) {d : Duration}
    {next : WaitEnd → Program (Except StoreError α × Memory)} {operation target : String}
    {m' : Memory} (hd : 0 < d.nanos)
    (hnext : next .interrupted = .tell (.waitInterrupted operation target)
      (.done (.error (.interrupted (c.site operation target)), m')))
    (hleft : (x.start m).untilWait b { h with closesAt := none } = (.wait d next, k)) :
    x.run b m h = ⟨.error (.interrupted (c.site operation target)), m',
      { k with
        closesAt := some t
        notices := k.notices ++ [.waitInterrupted operation target] }⟩ := by
  rw [Operation.run, Program.run_closed_of_wait hclosed ht hd hleft, hnext]
  rfl

/-- **On a closed store an operation stops at its first pause**, if it heeds the shutdown. -/
theorem Heeds.stopsAtFirstPause (hx : x.Heeds c) (b : Backend σ) (m : Memory) {h : Host σ} {t : Nat}
    (hclosed : h.closesAt = some t) (ht : t ≤ h.elapsed) : x.StopsAtFirstPause b c m h := by
  obtain ⟨-, helapsed, -⟩ := (x.start m).untilWait_closesAt b { h with closesAt := none } none
  have hheeds := (hx m).untilWait b { h with closesAt := none }
  have hcases := (x.start m).untilWait_cases b { h with closesAt := none }
  rcases hleft : (x.start m).untilWait b { h with closesAt := none } with ⟨left, k⟩
  rw [hleft] at helapsed hheeds hcases
  rcases hcases with ⟨r, rfl, hnever⟩ | ⟨d, next, rfl, ending, hpauses⟩
  · obtain ⟨hrun, hopen⟩ := run_closed_of_done hclosed hleft
    refine ⟨?_, fun _ => ?_, ?_, .inl hnever⟩
    · rw [hrun]
      exact helapsed
    · rw [hrun, hopen]
      exact ⟨rfl, rfl⟩
    · rintro operation target k' ⟨d, m₁, further, hfirst⟩
      rw [hleft, Client.start_pause_bind] at hfirst
      cases hfirst
  · obtain ⟨hd, -, operation, target, m', hnext⟩ := hheeds
    have hrun := run_closed_of_wait hclosed ht hd hnext hleft
    refine ⟨?_, fun hnever => absurd hpauses (hnever d ending), ?_, .inr ?_⟩
    · rw [hrun]
      exact helapsed
    · rintro operation' target' k' ⟨d', m₁, further, hfirst⟩
      rw [hleft, Client.start_pause_bind, Prod.mk.injEq, Program.wait.injEq] at hfirst
      obtain ⟨⟨rfl, rfl⟩, rfl⟩ := hfirst
      rw [Program.tell.injEq, Notice.waitInterrupted.injEq] at hnext
      obtain ⟨⟨rfl, rfl⟩, -⟩ := hnext
      rw [hrun]
      exact ⟨rfl, rfl⟩
    · refine ⟨operation, target, k, d, m', fun
        | (.ok (), _) => next .elapsed
        | (.error e, m₁) => .done (.error e, m₁), ?_⟩
      rw [hleft, Client.start_pause_bind]
      congr 2
      funext ending
      cases ending with
      | elapsed => rfl
      | interrupted => exact hnext

end Operation

end TableTree
