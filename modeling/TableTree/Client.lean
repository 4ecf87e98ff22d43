import TableTree.Operation
import TableTree.Settings.Basic
/-!
# Calling the service

A store sends its requests through a client, which tries them once or under a policy, waits between
the tries, and turns the errors of the service into errors of the store. A request that was throttled
is tried again within the budget, any other transient failure only when the request may be repeated,
and a permanent one never.

Results:

* `Client.once`, `Client.retry`: a request tried once, and under the policy.
* `Client.pause`: a wait that closing the store ends.
* `Client.backOff`: the wait before writes that were left out are sent again.
-/

namespace TableTree

/-- The way a store calls the service. -/
structure Client where
  policy : Policy
  table : String
  region : String
  throttleLogLimit : UInt64
deriving DecidableEq

/-- The client of a store with the given settings. -/
def Settings.client (s : Settings) : Client where
  policy := s.policy
  table := s.tableName
  region := s.region
  throttleLogLimit := s.throttleLogLimit

namespace Client

open Operation

variable {α : Type}

/-- The site of what the client does. -/
def site (c : Client) (operation target : String) : Site := ⟨operation, target, c.table, c.region⟩

/-- Tries a request once. -/
def once (c : Client) (operation target : String) (attempt : Program (Except ServiceError α)) :
    Operation α := do
  match ← perform attempt with
  | .ok a => pure a
  | .error e => throw (.backend (c.site operation target) e)

/-- Waits, unless the store is closed before the wait is over. -/
def pause (c : Client) (operation target : String) (d : Duration) : Operation Unit := do
  match ← perform (.sleep d) with
  | .elapsed => pure ()
  | .interrupted =>
    perform (.notify (.waitInterrupted operation target))
    throw (.interrupted (c.site operation target))

/-- Whether a failed request is worth another try. -/
def shouldRetry (e : ServiceError) (idempotent : Bool) : Bool :=
  !e.isPermanent && (e.isThrottle || idempotent)

/-- Counts one more throttled request and gives the count. -/
def countThrottle : Operation UInt64 :=
  modifyGet fun m => (m.throttleCount + 1, { m with throttleCount := m.throttleCount + 1 })

/-- Gives notice of a failure that will be tried again. The log has only the first failure of a
request, and throttling only while its count is below the limit. -/
def reportRetry (c : Client) (event : RetryEvent) : Operation Unit := do
  if event.error.isThrottle then
    let count ← countThrottle
    if event.attempts = 1 ∧ count < c.throttleLogLimit then
      perform (.notify (.limitsReached event.operation c.table event.error))
  else if event.attempts = 1 then
    perform (.notify (.firstFailure event.operation event.target event.error))
  perform (.notify (.retrying event))

/-- Tries a request under the policy, when the waits of `backoff` are left. -/
def retryFrom (c : Client) (operation target : String) (idempotent : Bool)
    (attempt : Program (Except ServiceError α)) (backoff : Backoff) : Operation α := do
  match ← perform attempt with
  | .ok a => pure a
  | .error e =>
    let attempts := backoff.attempts + 1
    if shouldRetry e idempotent then
      match _h : backoff.next? with
      | none =>
        throw (.retriesExhausted (c.site operation target) attempts e.isThrottle e.message)
      | some (duration, backoff') =>
        c.reportRetry ⟨operation, target, e, attempts, idempotent⟩
        c.pause operation target duration
        c.retryFrom operation target idempotent attempt backoff'
    else throw (.backend (c.site operation target) e)
termination_by backoff.remaining
decreasing_by exact Backoff.remaining_lt_of_next? _h

/-- Tries a request under the policy of the client. -/
def retry (c : Client) (operation target : String) (idempotent : Bool)
    (attempt : Program (Except ServiceError α)) : Operation α :=
  c.retryFrom operation target idempotent attempt ⟨c.policy, 0⟩

/-- Waits before `left` writes that were left out are sent again, for the first time when `count`
is zero. The budget of the policy is not spent if the wait is over. -/
def backOff (c : Client) (operation target : String) (count : UInt32) (left : Nat) :
    Operation (PLift (count < c.policy.maxRetries)) := do
  let _ ← countThrottle
  match h : c.policy.delay? count with
  | none =>
    throw (.retriesExhausted (c.site operation target) count true
      s!"{left} items still unprocessed")
  | some d =>
    c.pause operation target d
    pure ⟨Policy.delay?_isSome_iff.1 (by rw [h]; rfl)⟩

end Client

end TableTree
