import TableTree.Proofs.Outcome

/-!
# Requests with their answers

The exchanges of a run are the requests that it sends, each with the answer to it. A world can keep
an account of them, so that a condition on the end of a run may speak of all that was exchanged on
the way.

Results:

* `Program.exchanges`, `Operation.exchanges`: what a run exchanges with a backend.
* `Program.exchanges_bind`: what one program after another exchanges.
* `Operation.EndsAtOnce`: operations that are over before they have done anything.
* `World.logged`: a world with an account of the exchanges.
* `World.Leads`, `Operation.Always.leads`: exchanges that lead from one state to another.
* `Operation.Always.run_logged`: a run against a backend that stays within a world ends, with its
  exchanges in the account, as every run in the world does.
-/

namespace TableTree

variable {σ τ α β : Type}

/-- A request with the answer to it. -/
abbrev Exchange : Type := (r : Request) × r.Answer

/-- The requests that a program sends on a host, with their answers, in order. -/
def Program.exchanges (b : Backend σ) : Program α → Host σ → List Exchange
  | .done _, _ => []
  | .send r next, h =>
    let (answer, state) := b.answer r h.state
    ⟨r, answer⟩ :: (next answer).exchanges b { h with state := state }
  | .wait d next, h =>
    let (ending, h) := h.sleep d
    (next ending).exchanges b h
  | .clock next, h => (next h.now).exchanges b h
  | .tell n next, h => next.exchanges b { h with notices := h.notices ++ [n] }

/-- The requests that an operation sends on a host, with their answers, in order. -/
def Operation.exchanges (b : Backend σ) (x : Operation α) (m : Memory) (h : Host σ) :
    List Exchange :=
  (x.start m).exchanges b h

/-- One program after another exchanges what the first does and then what the second does. -/
theorem Program.exchanges_bind (b : Backend σ) (p : Program α) (f : α → Program β) (h : Host σ) :
    (p >>= f).exchanges b h = p.exchanges b h ++ (f (p.run b h).1).exchanges b (p.run b h).2 := by
  show (p.bind f).exchanges b h = _
  induction p generalizing h with
  | done a => rfl
  | send r next ih => simp only [bind, exchanges, run, ih, List.cons_append]
  | wait d next ih => simp only [bind, exchanges, run, ih]
  | clock next ih => simp only [bind, exchanges, run, ih]
  | tell n next ih => simp only [bind, exchanges, run, ih]

/-- After an operation that has failed nothing more is exchanged. -/
theorem Operation.exchanges_bind_of_error {b : Backend σ} {x : Operation α} {m : Memory}
    {h : Host σ} {e : StoreError} (he : (x.run b m h).outcome = .error e) (f : α → Operation β) :
    (x >>= f).exchanges b m h = x.exchanges b m h := by
  show Program.exchanges b (x.start m >>= _) h = _
  unfold Operation.run at he
  rw [Program.exchanges_bind]
  rcases hrun : (x.start m).run b h with ⟨⟨r, m'⟩, h'⟩
  rw [hrun] at he
  obtain rfl : r = .error e := he
  exact List.append_nil _

/-- After an operation that has succeeded, the next one exchanges what it does. -/
theorem Operation.exchanges_bind_of_ok {b : Backend σ} {x : Operation α} {m m₁ : Memory}
    {h h₁ : Host σ} {a : α} (hx : x.run b m h = ⟨.ok a, m₁, h₁⟩) (f : α → Operation β) :
    (x >>= f).exchanges b m h = x.exchanges b m h ++ (f a).exchanges b m₁ h₁ := by
  show Program.exchanges b (x.start m >>= _) h = _
  unfold Operation.run at hx
  rw [Program.exchanges_bind]
  rcases hrun : (x.start m).run b h with ⟨⟨r, m'⟩, h'⟩
  rw [hrun] at hx
  cases hx
  rfl

theorem Operation.exchanges_perform (b : Backend σ) (p : Program α) (m : Memory) (h : Host σ) :
    (perform p).exchanges b m h = p.exchanges b h := by
  show Program.exchanges b
    ((p >>= fun a => pure (a, m)) >>= fun (a, m) => pure (Except.ok a, m)) h = _
  rw [Program.exchanges_bind, Program.exchanges_bind]
  exact (List.append_nil _).trans (List.append_nil _)

theorem Operation.exchanges_outcome (b : Backend σ) (x : Operation α) (m : Memory) (h : Host σ) :
    (outcome x).exchanges b m h = x.exchanges b m h := by
  show Program.exchanges b ((x.start m) >>= fun (a, m) => pure (Except.ok a, m)) h = _
  rw [Program.exchanges_bind]
  exact List.append_nil _

/-! ## Operations that do nothing -/

/-- The operation is over before it has done anything. -/
def Operation.EndsAtOnce (x : Operation α) (m : Memory) (r : Except StoreError α) : Prop :=
  x.start m = .done (r, m)

namespace Operation.EndsAtOnce

variable {x : Operation α} {m : Memory} {r : Except StoreError α}

theorem run (hx : x.EndsAtOnce m r) (b : Backend σ) (h : Host σ) : x.run b m h = ⟨r, m, h⟩ := by
  rw [Operation.run, show x.start m = _ from hx]
  rfl

theorem exchanges (hx : x.EndsAtOnce m r) (b : Backend σ) (h : Host σ) :
    x.exchanges b m h = [] := by
  rw [Operation.exchanges, show x.start m = _ from hx]
  rfl

/-- What follows a failure is not reached. -/
theorem bind {e : StoreError} (hx : x.EndsAtOnce m (.error e)) (f : α → Operation β) :
    (x >>= f).EndsAtOnce m (.error e) := by
  show (x.start m >>= _) = _
  rw [show x.start m = _ from hx]
  rfl

end Operation.EndsAtOnce

/-! ## An account of the exchanges -/

/-- A world with an account of the exchanges so far. -/
def World.logged (W : World τ) : World (τ × List Exchange) where
  answers r st answer st' := W.answers r st.1 answer st'.1 ∧ st'.2 = st.2 ++ [⟨r, answer⟩]
  shows := W.shows

variable {W : World τ}

/-- A condition that does not speak of the account holds without one. -/
theorem Program.Always.of_logged {p : Program α} {st : τ} {log : List Exchange} {Q : α → τ → Prop}
    (h : p.Always W.logged (st, log) fun a st' => Q a st'.1) : p.Always W st Q := by
  induction p generalizing st log with
  | done a => exact h
  | send r next ih => exact fun answer st' ha => ih answer (h answer (st', _) ⟨ha, rfl⟩)
  | wait d next ih => exact fun ending => ih ending (h ending)
  | clock next ih => exact fun now hnow => ih now (h now hnow)
  | tell n next ih => exact ih h

/-- What holds without an account of the exchanges holds with one. -/
theorem Program.Always.logged {p : Program α} {st : τ × List Exchange} {Q : α → τ → Prop}
    (h : p.Always W st.1 Q) : p.Always W.logged st fun a st' => Q a st'.1 := by
  induction p generalizing st with
  | done a => exact h
  | send r next ih =>
    rintro answer st' ⟨ha, -⟩
    exact ih answer (h answer st'.1 ha)
  | wait d next ih => exact fun ending => ih ending (h ending)
  | clock next ih => exact fun now hnow => ih now (h now hnow)
  | tell n next ih => exact ih h

theorem Operation.Always.of_logged {x : Operation α} {m : Memory} {st : τ} {log : List Exchange}
    {Q : Except StoreError α → Memory → τ → Prop}
    (h : x.Always W.logged m (st, log) fun r m' st' => Q r m' st'.1) : x.Always W m st Q :=
  Program.Always.of_logged h

theorem Operation.Always.logged {x : Operation α} {m : Memory} {st : τ × List Exchange}
    {Q : Except StoreError α → Memory → τ → Prop} (h : x.Always W m st.1 Q) :
    x.Always W.logged m st fun r m' st' => Q r m' st'.1 :=
  Program.Always.logged h

/-! ## What exchanges lead to -/

/-- Exchanges, one after the other, may lead from one state to another. -/
def World.Leads (W : World τ) : τ → List Exchange → τ → Prop
  | st, [], st' => st' = st
  | st, x :: log, st' => ∃ st₁, W.answers x.1 st x.2 st₁ ∧ W.Leads st₁ log st'

theorem World.leads_append {st st' : τ} {log log' : List Exchange} :
    W.Leads st (log ++ log') st' ↔ ∃ st₁, W.Leads st log st₁ ∧ W.Leads st₁ log' st' := by
  induction log generalizing st with
  | nil => simp [Leads]
  | cons x log ih =>
    simp only [List.cons_append, Leads, ih]
    constructor
    · rintro ⟨st₁, h, st₂, h₁, h₂⟩
      exact ⟨st₂, ⟨st₁, h, h₁⟩, h₂⟩
    · rintro ⟨st₂, ⟨st₁, h, h₁⟩, h₂⟩
      exact ⟨st₁, h, st₂, h₁, h₂⟩

/-- What each exchange keeps, all of them keep. -/
theorem World.Leads.keeps {st st' : τ} {log : List Exchange} (h : W.Leads st log st')
    {P : τ → Prop} (hkeep : ∀ x ∈ log, ∀ st st', W.answers x.1 st x.2 st' → P st → P st')
    (hst : P st) : P st' := by
  induction log generalizing st with
  | nil =>
    cases h
    exact hst
  | cons x log ih =>
    obtain ⟨st₁, hx, h⟩ := h
    rw [List.forall_mem_cons] at hkeep
    exact ih h hkeep.2 (hkeep.1 _ _ hx hst)

/-- What is added to the account of a run has led to where the run has ended. -/
theorem Program.Always.leads {p : Program α} {st : τ × List Exchange} {Q : α → τ × List Exchange → Prop}
    (h : p.Always W.logged st Q) :
    p.Always W.logged st fun a st' =>
      Q a st' ∧ ∃ more, st'.2 = st.2 ++ more ∧ W.Leads st.1 more st'.1 := by
  induction p generalizing st with
  | done a => exact ⟨h, [], (List.append_nil _).symm, rfl⟩
  | send r next ih =>
    rintro answer ⟨_, _⟩ ⟨ha, rfl⟩
    refine (ih answer (h answer (_, _) ⟨ha, rfl⟩)).imp ?_
    rintro a st' ⟨hQ, more, hlog, hleads⟩
    exact ⟨hQ, ⟨r, answer⟩ :: more, hlog.trans (List.append_assoc ..), _, ha, hleads⟩
  | wait d next ih => exact fun ending => ih ending (h ending)
  | clock next ih => exact fun now hnow => ih now (h now hnow)
  | tell n next ih => exact ih h

theorem Operation.Always.leads {x : Operation α} {m : Memory} {st : τ × List Exchange}
    {Q : Except StoreError α → Memory → τ × List Exchange → Prop} (h : x.Always W.logged m st Q) :
    x.Always W.logged m st fun r m' st' =>
      Q r m' st' ∧ ∃ more, st'.2 = st.2 ++ more ∧ W.Leads st.1 more st'.1 :=
  Program.Always.leads h

/-! ## Runs -/

section Within

variable {b : Backend σ} {view : σ → τ} {Inv : σ → Prop}

/-- A run against a backend within a world ends, with its exchanges in the account, as every run in
the world does. -/
theorem Program.Always.run_logged (hb : b.Within W view Inv) {p : Program α} {h : Host σ}
    {log : List Exchange} (hinv : Inv h.state) (hnow : W.shows h.now)
    {Q : α → τ × List Exchange → Prop} (hp : p.Always W.logged (view h.state, log) Q) :
    Q (p.run b h).1 (view (p.run b h).2.state, log ++ p.exchanges b h) := by
  induction p generalizing h log with
  | done a =>
    rw [exchanges, List.append_nil]
    exact hp
  | send r next ih =>
    have hrest := ih (b.answer r h.state).1 (h := { h with state := (b.answer r h.state).2 })
      (hb.keeps r h.state hinv) hnow (hp _ (_, _) ⟨hb.answers r h.state hinv, rfl⟩)
    rwa [List.append_assoc] at hrest
  | wait d next ih =>
    obtain ⟨t, ties, ht⟩ := h.exists_sleep_eq d
    have := ih (h.sleep d).1 (h := { h with elapsed := t, ties := ties }) hinv hnow (hp _)
    rwa [← ht] at this
  | clock next ih => exact ih h.now hinv hnow (hp h.now hnow)
  | tell n next ih => exact ih (h := { h with notices := h.notices ++ [n] }) hinv hnow hp

theorem Operation.Always.run_logged (hb : b.Within W view Inv) {x : Operation α} {m : Memory}
    {h : Host σ} {log : List Exchange} (hinv : Inv h.state) (hnow : W.shows h.now)
    {Q : Except StoreError α → Memory → τ × List Exchange → Prop}
    (hx : x.Always W.logged m (view h.state, log) Q) :
    Q (x.run b m h).outcome (x.run b m h).memory
      (view (x.run b m h).host.state, log ++ x.exchanges b m h) :=
  Program.Always.run_logged hb hinv hnow hx

end Within

end TableTree
