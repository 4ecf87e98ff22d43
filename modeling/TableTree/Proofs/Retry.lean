import TableTree.Client
import TableTree.Proofs.Outcome

/-!
# Trying again

A request is tried until it succeeds or may not be tried any more. If every attempt that fails
leaves the state as an invariant says, so does the whole, and it succeeds as its last attempt did.

Results:

* `Client.always_retry`: a request under the policy.
* `Client.always_once`: a request tried once.
* `Client.always_pause`, `Client.always_backOff`: waits leave the state alone.
-/

namespace TableTree

open Operation

variable {σ α β ε : Type}

/-- The condition `Q` on a result and the state after it, or the invariant `I` after a failure. -/
def EndsIn (Q : α → σ → Prop) (I : σ → Prop) : Except ε α → σ → Prop
  | .ok a, st => Q a st
  | .error _, st => I st

@[simp] theorem endsIn_ok {Q : α → σ → Prop} {I : σ → Prop} {a : α} {st : σ} :
    EndsIn Q I (.ok a : Except ε α) st ↔ Q a st := Iff.rfl

@[simp] theorem endsIn_error {Q : α → σ → Prop} {I : σ → Prop} {e : ε} {st : σ} :
    EndsIn Q I (.error e : Except ε α) st ↔ I st := Iff.rfl

/-- An operation that fails within the invariant, followed by one that starts from its results. -/
theorem Operation.Always.andThen {W : World σ} {m : Memory} {st : σ} {x : Operation α}
    {f : α → Operation β} {P : α → σ → Prop} {Q : β → σ → Prop} {I : σ → Prop}
    (hx : x.Always W m st fun r _ st' => EndsIn P I r st')
    (hf : ∀ a m' st', P a st' → (f a).Always W m' st' fun r _ st' => EndsIn Q I r st') :
    (x >>= f).Always W m st fun r _ st' => EndsIn Q I r st' :=
  hx.bind hf fun _ _ _ h => h

/-- An operation of which only the effect is wanted. -/
theorem Operation.Always.discard {W : World σ} {m : Memory} {st : σ} {x : Operation α} {b : β}
    {Q I : σ → Prop} (hx : x.Always W m st fun r _ st' => EndsIn (fun _ => Q) I r st') :
    (x >>= fun _ => pure b).Always W m st fun r _ st' => EndsIn (fun _ => Q) I r st' :=
  hx.andThen fun _ _ _ h => h

namespace Client

variable {W : World σ} {c : Client} {operation target : String} {m : Memory} {st : σ}

theorem always_pause (d : Duration) :
    (c.pause operation target d).Always W m st fun _ m' st' => m' = m ∧ st' = st := by
  unfold pause
  rw [always_bind, always_perform, Program.always_sleep]
  intro ending
  cases ending with
  | elapsed => exact ⟨rfl, rfl⟩
  | interrupted =>
    dsimp only
    rw [always_bind, always_perform, Program.always_notify]
    exact ⟨rfl, rfl⟩

/-- A pause, followed by an operation. -/
theorem always_pause_bind {d : Duration} {f : Unit → Operation α}
    {Q : Except StoreError α → Memory → σ → Prop}
    (ok : (f ()).Always W m st Q) (error : ∀ e, Q (.error e) m st) :
    (c.pause operation target d >>= f).Always W m st Q := by
  refine (always_pause d).bind ?_ ?_
  · rintro _ _ _ ⟨rfl, rfl⟩
    exact ok
  · rintro e _ _ ⟨rfl, rfl⟩
    exact error e

theorem always_countThrottle {Q : Except StoreError UInt64 → Memory → σ → Prop} :
    countThrottle.Always W m st Q ↔
      Q (.ok (m.throttleCount + 1)) { m with throttleCount := m.throttleCount + 1 } st :=
  Iff.rfl

theorem always_reportRetry (event : RetryEvent) :
    (c.reportRetry event).Always W m st fun _ _ st' => st' = st := by
  unfold reportRetry
  split
  · rw [always_bind, always_countThrottle]
    dsimp only
    split
    · simp only [always_bind, always_perform, Program.always_notify]
    · simp only [always_perform, Program.always_notify]
  · split
    · simp only [always_bind, always_perform, Program.always_notify]
    · simp only [always_perform, Program.always_notify]

theorem always_once {attempt : Program (Except ServiceError α)} {Q : α → σ → Prop}
    {I : σ → Prop} (h : attempt.Always W st fun r st' => EndsIn Q I r st') :
    (c.once operation target attempt).Always W m st fun r _ st' => EndsIn Q I r st' := by
  unfold once
  rw [always_bind, always_perform]
  refine h.imp ?_
  intro r st' hr
  cases r with
  | ok a => exact hr
  | error e => exact hr

/-- Attempts that leave the invariant `I` when they fail, and a result in `Q` when they succeed,
leave one or the other when they are tried under a policy. -/
theorem always_retryFrom {idempotent : Bool} {attempt : Program (Except ServiceError α)}
    {Q : α → σ → Prop} {I : σ → Prop}
    (h : ∀ st, I st → attempt.Always W st fun r st' => EndsIn Q I r st') (backoff : Backoff)
    (m : Memory) {st : σ} (hst : I st) :
    (c.retryFrom operation target idempotent attempt backoff).Always W m st
      fun r _ st' => EndsIn Q I r st' := by
  -- on the waits that are left
  induction hn : backoff.remaining using Nat.strongRecOn generalizing backoff m st with
  | ind n ih =>
    rw [retryFrom, always_bind, always_perform]
    refine (h st hst).imp ?_
    intro r st' hr
    cases r with
    | ok a => exact hr
    | error e =>
      dsimp only
      split
      · split
        · exact hr
        · rename_i duration backoff' hnext
          refine (always_reportRetry _).bind ?_ ?_
          · rintro _ m' _ rfl
            refine always_pause_bind ?_ fun _ => hr
            exact ih _ (hn ▸ Backoff.remaining_lt_of_next? hnext) backoff' m' hr rfl
          · rintro e m' _ rfl
            exact hr
      · exact hr

theorem always_retry {idempotent : Bool} {attempt : Program (Except ServiceError α)}
    {Q : α → σ → Prop} {I : σ → Prop}
    (h : ∀ st, I st → attempt.Always W st fun r st' => EndsIn Q I r st') (m : Memory) {st : σ}
    (hst : I st) :
    (c.retry operation target idempotent attempt).Always W m st
      fun r _ st' => EndsIn Q I r st' :=
  always_retryFrom h _ m hst

theorem always_backOff {count : UInt32} {left : Nat} :
    (c.backOff operation target count left).Always W m st fun _ _ st' => st' = st := by
  unfold backOff
  rw [always_bind, always_countThrottle]
  dsimp only
  split
  · rfl
  · exact always_pause_bind rfl fun _ => rfl

end Client

end TableTree
