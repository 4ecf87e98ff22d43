import TableTree.Host

/-!
# What every run ends in

A world says which answers a request may get and which times the clock may show. `Program.Always`
is the condition on a state from which every run of a program in a world, however its waits end,
ends as wanted. It is computed along the program, so it splits at every step of one.

Results:

* `Program.always_bind`, `Operation.always_bind`: one program or operation after another.
* `Program.Always.imp`, `Operation.Always.imp`: a weaker condition on the end.
* `Program.Always.and`, `Program.Always.mono`: two conditions, and a world that allows less.
* `Program.Always.run`, `Operation.Always.run`: a run against a backend that stays within a world
  ends as every run in the world does.
-/

namespace TableTree

variable {σ τ α β : Type}

/-- What a program may meet. -/
structure World (σ : Type) where
  /-- the answers to a request in a state, and the states after them -/
  answers : (r : Request) → σ → r.Answer → σ → Prop
  /-- the times that the clock may show -/
  shows : Int64 → Prop := fun _ => True

/-! ## Programs -/

namespace Program

/-- Every run of a program from a state ends in the condition `Q` on its result and the state after
it. -/
def Always (W : World σ) : Program α → σ → (α → σ → Prop) → Prop
  | .done a, st, Q => Q a st
  | .send r next, st, Q => ∀ answer st', W.answers r st answer st' → (next answer).Always W st' Q
  | .wait _ next, st, Q => ∀ ending, (next ending).Always W st Q
  | .clock next, st, Q => ∀ now, W.shows now → (next now).Always W st Q
  | .tell _ next, st, Q => next.Always W st Q

variable {W : World σ} {st : σ}

@[simp] theorem always_pure {a : α} {Q : α → σ → Prop} :
    (pure a : Program α).Always W st Q ↔ Q a st := Iff.rfl

@[simp] theorem always_ask {r : Request} {Q : r.Answer → σ → Prop} :
    (ask r).Always W st Q ↔ ∀ answer st', W.answers r st answer st' → Q answer st' := Iff.rfl

@[simp] theorem always_sleep {d : Duration} {Q : WaitEnd → σ → Prop} :
    (sleep d).Always W st Q ↔ ∀ ending, Q ending st := Iff.rfl

@[simp] theorem always_now {Q : Int64 → σ → Prop} :
    now.Always W st Q ↔ ∀ time, W.shows time → Q time st := Iff.rfl

@[simp] theorem always_notify {n : Notice} {Q : Unit → σ → Prop} :
    (notify n).Always W st Q ↔ Q () st := Iff.rfl

/-- One program after another starts in the states that the first may end in. -/
@[simp] theorem always_bind {p : Program α} {f : α → Program β} {Q : β → σ → Prop} :
    (p >>= f).Always W st Q ↔ p.Always W st fun a st' => (f a).Always W st' Q := by
  show (p.bind f).Always W st Q ↔ _
  induction p generalizing st with
  | done a => rfl
  | send r next ih => simp only [bind, Always, ih]
  | wait d next ih => simp only [bind, Always, ih]
  | clock next ih => simp only [bind, Always, ih]
  | tell n next ih => simp only [bind, Always, ih]

theorem Always.imp {p : Program α} {Q Q' : α → σ → Prop} (h : p.Always W st Q)
    (hQ : ∀ a st', Q a st' → Q' a st') : p.Always W st Q' := by
  induction p generalizing st with
  | done a => exact hQ a st h
  | send r next ih => exact fun answer st' ha => ih answer (h answer st' ha)
  | wait d next ih => exact fun ending => ih ending (h ending)
  | clock next ih => exact fun now hnow => ih now (h now hnow)
  | tell n next ih => exact ih h

/-- What holds of every end holds of what a run ends in. -/
theorem always_of_forall {p : Program α} {Q : α → σ → Prop} (h : ∀ a st', Q a st') :
    p.Always W st Q := by
  induction p generalizing st with
  | done a => exact h a st
  | send r next ih => exact fun answer st' _ => ih answer
  | wait d next ih => exact fun ending => ih ending
  | clock next ih => exact fun now _ => ih now
  | tell n next ih => exact ih

theorem Always.and {p : Program α} {Q Q' : α → σ → Prop} (h : p.Always W st Q)
    (h' : p.Always W st Q') : p.Always W st fun a st' => Q a st' ∧ Q' a st' := by
  induction p generalizing st with
  | done a => exact ⟨h, h'⟩
  | send r next ih => exact fun answer st' ha => ih answer (h answer st' ha) (h' answer st' ha)
  | wait d next ih => exact fun ending => ih ending (h ending) (h' ending)
  | clock next ih => exact fun now hnow => ih now (h now hnow) (h' now hnow)
  | tell n next ih => exact ih h h'

/-- What holds in a world holds in a world that allows less. -/
theorem Always.mono {W' : World σ} {p : Program α} {Q : α → σ → Prop} (h : p.Always W st Q)
    (hanswers : ∀ r st answer st', W'.answers r st answer st' → W.answers r st answer st')
    (hshows : ∀ now, W'.shows now → W.shows now) : p.Always W' st Q := by
  induction p generalizing st with
  | done a => exact h
  | send r next ih =>
    exact fun answer st' ha => ih answer (h answer st' (hanswers r st answer st' ha))
  | wait d next ih => exact fun ending => ih ending (h ending)
  | clock next ih => exact fun now hnow => ih now (h now (hshows now hnow))
  | tell n next ih => exact ih h

end Program

/-! ## Operations -/

namespace Operation

/-- Every run of an operation from a memory and a state ends in the condition `Q` on its outcome and
on the memory and the state after it. -/
def Always (W : World σ) (x : Operation α) (m : Memory) (st : σ)
    (Q : Except StoreError α → Memory → σ → Prop) : Prop :=
  (x.start m).Always W st fun r st' => Q r.1 r.2 st'

variable {W : World σ} {m : Memory} {st : σ}

@[simp] theorem always_pure {a : α} {Q : Except StoreError α → Memory → σ → Prop} :
    (pure a : Operation α).Always W m st Q ↔ Q (.ok a) m st := Iff.rfl

@[simp] theorem always_ofResult {x : Except StoreError α}
    {Q : Except StoreError α → Memory → σ → Prop} :
    (ofResult x).Always W m st Q ↔ Q x m st := Iff.rfl

@[simp] theorem always_get {Q : Except StoreError Memory → Memory → σ → Prop} :
    (getThe Memory : Operation Memory).Always W m st Q ↔ Q (.ok m) m st := Iff.rfl

@[simp] theorem always_perform {p : Program α} {Q : Except StoreError α → Memory → σ → Prop} :
    (perform p).Always W m st Q ↔ p.Always W st fun a st' => Q (.ok a) m st' := by
  show Program.Always W ((p >>= fun a => pure (a, m)) >>= fun (a, m) => pure (Except.ok a, m)) st _
    ↔ _
  simp only [Program.always_bind, Program.always_pure]

/-- A program with a memory that does not fail. -/
theorem always_lift {x : StateT Memory Program α} {Q : Except StoreError α → Memory → σ → Prop} :
    Always W (ExceptT.lift x) m st Q ↔
      Program.Always W (x.run m) st fun r st' => Q (.ok r.1) r.2 st' := by
  show Program.Always W (x m >>= fun (a, m) => pure (Except.ok a, m)) st _ ↔ _
  rw [Program.always_bind]
  rfl

/-- One operation after another starts where the first has succeeded. -/
theorem always_bind {x : Operation α} {f : α → Operation β}
    {Q : Except StoreError β → Memory → σ → Prop} :
    (x >>= f).Always W m st Q ↔ x.Always W m st fun r m' st' =>
      match r with
      | .ok a => (f a).Always W m' st' Q
      | .error e => Q (.error e) m' st' := by
  show Program.Always W (x.start m >>= _) st _ ↔ _
  rw [Program.always_bind]
  unfold Always
  apply iff_of_eq
  congr 1
  funext r st'
  rcases r with ⟨_ | a, m'⟩ <;> rfl

/-- What follows a value that is there. -/
theorem always_ofPath_ok {a : α} {f : α → Operation β}
    {Q : Except StoreError β → Memory → σ → Prop} :
    (ofPath (.ok a) >>= f).Always W m st Q ↔ (f a).Always W m st Q := by
  rw [always_bind]
  rfl

theorem Always.imp {x : Operation α} {Q Q' : Except StoreError α → Memory → σ → Prop}
    (h : x.Always W m st Q) (hQ : ∀ r m' st', Q r m' st' → Q' r m' st') :
    x.Always W m st Q' :=
  Program.Always.imp h fun r st' => hQ r.1 r.2 st'

/-- One operation after another, from what holds between them. -/
theorem Always.bind {x : Operation α} {f : α → Operation β}
    {P : Except StoreError α → Memory → σ → Prop} {Q : Except StoreError β → Memory → σ → Prop}
    (hx : x.Always W m st P)
    (ok : ∀ a m' st', P (.ok a) m' st' → (f a).Always W m' st' Q)
    (error : ∀ e m' st', P (.error e) m' st' → Q (.error e) m' st') :
    (x >>= f).Always W m st Q := by
  rw [always_bind]
  refine hx.imp ?_
  intro r m' st' h
  cases r with
  | ok a => exact ok a m' st' h
  | error e => exact error e m' st' h

/-- One operation after another of which nothing need be known. -/
theorem always_bind_of_forall {x : Operation α} {f : α → Operation β}
    {Q : Except StoreError β → Memory → σ → Prop} (ok : ∀ a m' st', (f a).Always W m' st' Q)
    (error : ∀ e m' st', Q (.error e) m' st') : (x >>= f).Always W m st Q := by
  rw [always_bind]
  refine Program.always_of_forall ?_
  rintro ⟨_ | a, m'⟩ st'
  · exact error _ m' st'
  · exact ok a m' st'

end Operation

/-! ## Runs -/

/-- A backend stays within a world as long as `Inv` holds of its state, which it keeps up. The world
sees the state through `view`. -/
structure Backend.Within (b : Backend σ) (W : World τ) (view : σ → τ) (Inv : σ → Prop) : Prop where
  answers : ∀ r s, Inv s → W.answers r (view s) (b.answer r s).1 (view (b.answer r s).2)
  keeps : ∀ r s, Inv s → Inv (b.answer r s).2

/-- A wait moves the timer of a host, and may use up what decides on its end, and nothing else. -/
theorem Host.exists_sleep_eq (h : Host σ) (d : Duration) :
    ∃ t ties, (h.sleep d).2 = { h with elapsed := t, ties := ties } := by
  cases hc : h.closesAt with
  | none =>
    simp only [Host.sleep, hc]
    exact ⟨_, _, rfl⟩
  | some t =>
    simp only [Host.sleep, hc]
    split
    · exact ⟨_, _, rfl⟩
    · split
      · exact ⟨_, _, rfl⟩
      · exact ⟨_, _, rfl⟩

section Within

variable {b : Backend σ} {W : World τ} {view : σ → τ} {Inv : σ → Prop}

/-- A run against a backend within a world ends as every run in the world does. -/
theorem Program.Always.run (hb : b.Within W view Inv) {p : Program α} {h : Host σ}
    (hinv : Inv h.state) (hnow : W.shows h.now) {Q : α → τ → Prop}
    (hp : p.Always W (view h.state) Q) :
    Q (p.run b h).1 (view (p.run b h).2.state) ∧ Inv (p.run b h).2.state := by
  induction p generalizing h with
  | done a => exact ⟨hp, hinv⟩
  | send r next ih =>
    exact ih _ (hb.keeps r h.state hinv) hnow (hp _ _ (hb.answers r h.state hinv))
  | wait d next ih =>
    obtain ⟨t, ties, ht⟩ := h.exists_sleep_eq d
    have := ih (h.sleep d).1 (h := { h with elapsed := t, ties := ties }) hinv hnow (hp _)
    rwa [← ht] at this
  | clock next ih => exact ih h.now hinv hnow (hp h.now hnow)
  | tell n next ih => exact ih (h := { h with notices := h.notices ++ [n] }) hinv hnow hp

theorem Operation.Always.run (hb : b.Within W view Inv) {x : Operation α} {m : Memory}
    {h : Host σ} (hinv : Inv h.state) (hnow : W.shows h.now)
    {Q : Except StoreError α → Memory → τ → Prop} (hx : x.Always W m (view h.state) Q) :
    Q (x.run b m h).outcome (x.run b m h).memory (view (x.run b m h).host.state) ∧
      Inv (x.run b m h).host.state :=
  Program.Always.run hb hinv hnow hx

end Within

end TableTree
