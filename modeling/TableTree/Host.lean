import TableTree.Operation
/-!
# Running programs

A backend answers requests; a host runs a program against a backend, with a clock that stands still
and a timer of whole milliseconds that only waits move.

Results:

* `Backend`: whatever answers requests, with a state of its own.
* `Timer`: how long waits take; `Timer.exact` is made for all of them.
* `Host.sleep`: a wait, which the shutdown may end.
* `Program.run`: a program on a host; `Program.run_bind` runs one after the other.
* `Operation.run`: an operation on a host.
-/

namespace TableTree

/-- Whatever answers requests. -/
structure Backend (σ : Type) where
  answer : (r : Request) → σ → r.Answer × σ

/-- A timer. Up to the longest wait that it is made for, it goes off after the milliseconds that the
wait fills or begins. How long a longer wait takes is left open, as long as it takes time. -/
structure Timer where
  /-- how many milliseconds a wait takes -/
  millis : Duration → Nat
  /-- the longest wait that the timer is made for -/
  longest : Duration
  millis_eq : ∀ d ≤ longest, millis d = d.ceilMillis
  millis_pos : ∀ d, 0 < d.nanos → 0 < millis d

namespace Timer

/-- The timer that goes off after a given time if the wait is longer. -/
def upTo (longest : Duration) (hpos : 0 < longest.nanos) : Timer where
  millis d := (min d longest).ceilMillis
  longest := longest
  millis_eq d hd := congrArg Duration.ceilMillis (Duration.min_eq_left hd)
  millis_pos d hd := by
    rw [Duration.ceilMillis_pos_iff, Duration.nanos_min]
    exact Nat.lt_min.2 ⟨hd, hpos⟩

/-- The timer that is made for all waits. -/
def exact : Timer := upTo ⟨maxNanos, Nat.le_refl _⟩ (by decide)

end Timer

/-- What a program runs on. -/
structure Host (σ : Type) where
  /-- the state of the backend -/
  state : σ
  /-- the time of the day, in milliseconds since 1970 -/
  now : Int64
  /-- the milliseconds spent waiting so far -/
  elapsed : Nat := 0
  /-- when the shutdown comes, in milliseconds spent waiting -/
  closesAt : Option Nat := none
  notices : List Notice := []
  timer : Timer := .exact
  /-- how the waits end that are over when the shutdown is there as well, one after the other; those
  beyond the list end well -/
  ties : List WaitEnd := []

namespace Host

variable {σ : Type}

/-- When a wait that begins now is over. -/
def ending (h : Host σ) (d : Duration) : Nat := h.elapsed + h.timer.millis d

/-- When a timer that is set now to so many milliseconds goes off. -/
def timerEnd (h : Host σ) (millis : Nat) : Nat := h.ending (.ofMillis millis)

/-- Waits. A wait that is over before the shutdown comes ends well, and one that is not over when the
shutdown is there is interrupted, at once if the shutdown has come already. A wait that is over just
then, or that takes no time after the shutdown, may end either way. -/
def sleep (h : Host σ) (d : Duration) : WaitEnd × Host σ :=
  match h.closesAt with
  | none => (.elapsed, { h with elapsed := h.ending d })
  | some t =>
    if h.ending d < t then (.elapsed, { h with elapsed := h.ending d })
    else if h.elapsed < h.ending d ∧ t < h.ending d then
      (.interrupted, { h with elapsed := max h.elapsed t })
    else (h.ties.headD .elapsed, { h with elapsed := h.ending d, ties := h.ties.tail })

/-- Waits until so much time has been spent, if it has not been yet. -/
def sleepUntil (h : Host σ) (t : Nat) : Host σ := { h with elapsed := max h.elapsed t }

/-- Brings on the shutdown after so many milliseconds, unless it comes earlier anyway. -/
def closeAfter (h : Host σ) (millis : Nat) : Host σ :=
  let t := h.timerEnd millis
  { h with closesAt := some (h.closesAt.elim t (min t)) }

end Host

namespace Program

variable {σ α β : Type}

/-- The result of a program on a host, and the host after it. -/
def run (b : Backend σ) : Program α → Host σ → α × Host σ
  | .done a, h => (a, h)
  | .send r next, h =>
    let (answer, state) := b.answer r h.state
    (next answer).run b { h with state := state }
  | .wait d next, h =>
    let (ending, h) := h.sleep d
    (next ending).run b h
  | .clock next, h => (next h.now).run b h
  | .tell n next, h => next.run b { h with notices := h.notices ++ [n] }

@[simp] theorem run_done (b : Backend σ) (a : α) (h : Host σ) :
    (Program.done a).run b h = (a, h) := rfl

@[simp] theorem run_pure (b : Backend σ) (a : α) (h : Host σ) :
    (pure a : Program α).run b h = (a, h) := rfl

/-- One program after another runs from where the first has ended. -/
@[simp] theorem run_bind (b : Backend σ) (p : Program α) (f : α → Program β) (h : Host σ) :
    (p >>= f).run b h = (f (p.run b h).1).run b (p.run b h).2 := by
  show (p.bind f).run b h = _
  induction p generalizing h with
  | done a => rfl
  | send r next ih => simp only [bind, run, ih]
  | wait d next ih => simp only [bind, run, ih]
  | clock next ih => simp only [bind, run, ih]
  | tell n next ih => simp only [bind, run, ih]

@[simp] theorem run_map (b : Backend σ) (f : α → β) (p : Program α) (h : Host σ) :
    (f <$> p).run b h = (f (p.run b h).1, (p.run b h).2) := by
  rw [map_eq_pure_bind, run_bind, run_pure]

end Program

namespace Operation

variable {σ α β : Type}

/-- What an operation leaves: its outcome, the memory, and the host. -/
structure Run (σ α : Type) where
  outcome : Except StoreError α
  memory : Memory
  host : Host σ

/-- An operation on a host. -/
def run (b : Backend σ) (x : Operation α) (m : Memory) (h : Host σ) : Run σ α :=
  let ((outcome, memory), host) := (x.start m).run b h
  ⟨outcome, memory, host⟩

/-- What an operation leaves, followed by another operation if it has succeeded. -/
def Run.andThen (r : Run σ α) (b : Backend σ) (f : α → Operation β) : Run σ β :=
  match r with
  | ⟨.ok a, m, h⟩ => (f a).run b m h
  | ⟨.error e, m, h⟩ => ⟨.error e, m, h⟩

@[simp] theorem run_pure (b : Backend σ) (a : α) (m : Memory) (h : Host σ) :
    (pure a : Operation α).run b m h = ⟨.ok a, m, h⟩ := rfl

@[simp] theorem run_throw (b : Backend σ) (e : StoreError) (m : Memory) (h : Host σ) :
    (throw e : Operation α).run b m h = ⟨.error e, m, h⟩ := rfl

@[simp] theorem run_bind (b : Backend σ) (x : Operation α) (f : α → Operation β) (m : Memory)
    (h : Host σ) : (x >>= f).run b m h = (x.run b m h).andThen b f := by
  show (let ((outcome, memory), host) := ((x.start m) >>= _).run b h
    (⟨outcome, memory, host⟩ : Run σ β)) = _
  rw [Program.run_bind]
  unfold run
  rcases (x.start m).run b h with ⟨⟨_ | a, m'⟩, h'⟩ <;> rfl

@[simp] theorem run_perform (b : Backend σ) (p : Program α) (m : Memory) (h : Host σ) :
    (perform p).run b m h = ⟨.ok (p.run b h).1, m, (p.run b h).2⟩ := by
  show (let ((outcome, memory), host) := ((p >>= fun a => pure (a, m)) >>= fun
      (a, m) => pure (Except.ok a, m)).run b h
    (⟨outcome, memory, host⟩ : Run σ α)) = _
  simp

@[simp] theorem run_ofResult (b : Backend σ) (x : Except StoreError α) (m : Memory) (h : Host σ) :
    (ofResult x).run b m h = ⟨x, m, h⟩ := rfl

end Operation

end TableTree
