import TableTree.Proofs.Indifference

/-!
# What is done in the course of a run

A run exchanges requests for answers, waits, looks at the clock and gives notice. The deeds of a run
are all of these in the order in which they are done, so that a statement may say what comes before
what, and how long the waits between them are.

Results:

* `Deed`, `Program.deeds`, `Operation.deeds`: what a run does.
* `Operation.told`: the notices that a run gives, which `Operation.notices_run` finds on the host.
* `Program.Comes`: a run that has done some deeds and goes on as another one.
* `Program.OnlySends`: programs that do nothing but send requests; `Program.OnlySends.run_eq` says
  that their runs depend on the state of the backend alone.
-/

namespace TableTree

open Operation

variable {σ α β : Type}

/-- What a program does on its way. -/
inductive Deed
  | exchanged (exchange : Exchange)
  | waited (duration : Duration) (ending : WaitEnd)
  | looked (time : Int64)
  | told (notice : Notice)

/-- The notice that is given. -/
def Deed.notice? : Deed → Option Notice
  | .told n => some n
  | _ => none

/-! ## Programs -/

namespace Program

/-- What a program does on a host, in order. -/
def deeds (b : Backend σ) : Program α → Host σ → List Deed
  | .done _, _ => []
  | .send r next, h =>
    let (answer, state) := b.answer r h.state
    .exchanged ⟨r, answer⟩ :: (next answer).deeds b { h with state := state }
  | .wait d next, h =>
    let (ending, h) := h.sleep d
    .waited d ending :: (next ending).deeds b h
  | .clock next, h => .looked h.now :: (next h.now).deeds b h
  | .tell n next, h => .told n :: next.deeds b { h with notices := h.notices ++ [n] }

/-- One program after another does what the first does and then what the second does. -/
theorem deeds_bind (b : Backend σ) (p : Program α) (f : α → Program β) (h : Host σ) :
    (p >>= f).deeds b h = p.deeds b h ++ (f (p.run b h).1).deeds b (p.run b h).2 := by
  show (p.bind f).deeds b h = _
  induction p generalizing h with
  | done a => rfl
  | send r next ih => simp only [bind, deeds, run, ih, List.cons_append]
  | wait d next ih => simp only [bind, deeds, run, ih, List.cons_append]
  | clock next ih => simp only [bind, deeds, run, ih, List.cons_append]
  | tell n next ih => simp only [bind, deeds, run, ih, List.cons_append]

/-- The notices that a run gives are added to those on the host. -/
theorem notices_run (b : Backend σ) (p : Program α) (h : Host σ) :
    (p.run b h).2.notices = h.notices ++ (p.deeds b h).filterMap Deed.notice? := by
  induction p generalizing h with
  | done a => exact (List.append_nil _).symm
  | send r next ih => exact ih _ _
  | wait d next ih =>
    obtain ⟨t, ties, ht⟩ := h.exists_sleep_eq d
    have hrest := ih (h.sleep d).1 (h.sleep d).2
    rwa [show (h.sleep d).2.notices = h.notices by rw [ht]] at hrest
  | clock next ih => exact ih h.now h
  | tell n next ih =>
    refine (ih _).trans ?_
    rw [List.append_assoc]
    rfl

/-! ### Going on -/

/-- A run of `p` from `h` does the deeds `ds`, and then goes on as a run of `q` from `k`. -/
structure Comes (b : Backend σ) (p : Program α) (h : Host σ) (ds : List Deed) (q : Program α)
    (k : Host σ) : Prop where
  run_eq : p.run b h = q.run b k
  deeds_eq : p.deeds b h = ds ++ q.deeds b k

theorem Comes.refl (b : Backend σ) (p : Program α) (h : Host σ) : p.Comes b h [] p h := ⟨rfl, rfl⟩

theorem Comes.trans {b : Backend σ} {p q r : Program α} {h k l : Host σ} {ds ds' : List Deed}
    (hq : p.Comes b h ds q k) (hr : q.Comes b k ds' r l) : p.Comes b h (ds ++ ds') r l where
  run_eq := hq.run_eq.trans hr.run_eq
  deeds_eq := by rw [hq.deeds_eq, hr.deeds_eq, List.append_assoc]

/-- One program after another comes to the second when the first has ended. -/
theorem comes_bind (b : Backend σ) (p : Program α) (f : α → Program β) (h : Host σ) :
    (p >>= f).Comes b h (p.deeds b h) (f (p.run b h).1) (p.run b h).2 :=
  ⟨run_bind b p f h, deeds_bind b p f h⟩

/-- Notices that are given before a program. -/
theorem comes_foldr_tell (b : Backend σ) (p : Program α) (ns : List Notice) (h : Host σ) :
    (ns.foldr .tell p).Comes b h (ns.map .told) p { h with notices := h.notices ++ ns } := by
  refine ⟨(p.run_foldr_tell b ns h).1, ?_⟩
  induction ns generalizing h with
  | nil => simp
  | cons n ns ih =>
    have htold := ih { h with notices := h.notices ++ [n] }
    rw [List.append_assoc] at htold
    exact congrArg _ htold

theorem comes_wait (b : Backend σ) (d : Duration) (next : WaitEnd → Program α) (h : Host σ) :
    (Program.wait d next).Comes b h [.waited d (h.sleep d).1] (next (h.sleep d).1)
      (h.sleep d).2 :=
  ⟨rfl, rfl⟩

/-! ### Programs that only send -/

/-- The program sends requests and does nothing else. -/
def OnlySends : Program α → Prop
  | .done _ => True
  | .send _ next => ∀ answer, (next answer).OnlySends
  | .wait .. | .clock _ | .tell .. => False

theorem onlySends_pure (a : α) : (pure a : Program α).OnlySends := trivial

theorem onlySends_ask (r : Request) : (ask r).OnlySends := fun _ => trivial

theorem OnlySends.bind {p : Program α} {f : α → Program β} (hp : p.OnlySends)
    (hf : ∀ a, (f a).OnlySends) : (p >>= f).OnlySends := by
  show (p.bind f).OnlySends
  induction p with
  | done a => exact hf a
  | send r next ih => exact fun answer => ih answer (hp answer)
  | wait d next => exact hp.elim
  | clock next => exact hp.elim
  | tell n next => exact hp.elim

/-- On hosts with the same state such a program does the same. It leaves all but the state as it
was. -/
theorem OnlySends.run_eq {b : Backend σ} {p : Program α} (hp : p.OnlySends) {h k : Host σ}
    (hstate : k.state = h.state) :
    p.run b k = ((p.run b h).1, { k with state := (p.run b h).2.state }) ∧
      p.deeds b k = p.deeds b h := by
  induction p generalizing h k with
  | done a =>
    obtain ⟨state, now, elapsed, closesAt, notices, timer, ties⟩ := k
    obtain rfl : state = h.state := hstate
    exact ⟨rfl, rfl⟩
  | send r next ih =>
    simp only [run, deeds, hstate]
    obtain ⟨hrun, hdeeds⟩ := ih (b.answer r h.state).1 (hp _)
      (h := { h with state := (b.answer r h.state).2 })
      (k := { k with state := (b.answer r h.state).2 }) rfl
    exact ⟨hrun, congrArg _ hdeeds⟩
  | wait d next => exact hp.elim
  | clock next => exact hp.elim
  | tell n next => exact hp.elim

/-- All that such a program does is to exchange requests for answers. -/
theorem OnlySends.exists_eq_exchanged {b : Backend σ} {p : Program α} (hp : p.OnlySends)
    {h : Host σ} {d : Deed} (hd : d ∈ p.deeds b h) : ∃ x, d = .exchanged x := by
  induction p generalizing h with
  | done a => cases hd
  | send r next ih =>
    rcases List.mem_cons.1 hd with rfl | hd
    · exact ⟨_, rfl⟩
    · exact ih _ (hp _) hd
  | wait d next => exact hp.elim
  | clock next => exact hp.elim
  | tell n next => exact hp.elim

end Program

/-! ## Operations -/

namespace Operation

/-- What an operation does on a host, in order. -/
def deeds (b : Backend σ) (x : Operation α) (m : Memory) (h : Host σ) : List Deed :=
  (x.start m).deeds b h

/-- The notices that an operation gives on a host, in order. -/
def told (b : Backend σ) (x : Operation α) (m : Memory) (h : Host σ) : List Notice :=
  (x.deeds b m h).filterMap Deed.notice?

theorem notices_run (b : Backend σ) (x : Operation α) (m : Memory) (h : Host σ) :
    (x.run b m h).host.notices = h.notices ++ x.told b m h :=
  (x.start m).notices_run b h

/-- What follows an operation that has succeeded; after one that has failed nothing does. -/
theorem start_bind (x : Operation α) (f : α → Operation β) (m : Memory) :
    (x >>= f).start m = x.start m >>= fun
      | (.ok a, m₁) => (f a).start m₁
      | (.error e, m₁) => pure (.error e, m₁) := by
  show x.start m >>= _ = _
  congr 1
  funext r
  rcases r with ⟨_ | a, m₁⟩
  · rfl
  · rfl

theorem start_perform (p : Program α) (m : Memory) :
    (perform p).start m = p >>= fun a => pure (.ok a, m) := by
  show ((p >>= fun a => pure (a, m)) >>= fun (a, m) => pure (Except.ok a, m)) = _
  rw [bind_assoc]
  rfl

/-- One operation after another comes to the second when the first has succeeded. -/
theorem comes_bind_of_ok {b : Backend σ} {x : Operation α} {m m₁ : Memory} {h h₁ : Host σ} {a : α}
    (hx : x.run b m h = ⟨.ok a, m₁, h₁⟩) (f : α → Operation β) :
    ((x >>= f).start m).Comes b h (x.deeds b m h) ((f a).start m₁) h₁ := by
  have hrun : (x.start m).run b h = ((.ok a, m₁), h₁) := by
    unfold run at hx
    rcases hstart : (x.start m).run b h with ⟨⟨r, m'⟩, h'⟩
    rw [hstart] at hx
    cases hx
    rfl
  have hcomes := Program.comes_bind b (x.start m) (fun
    | (.ok a, m₁) => (f a).start m₁
    | (.error e, m₁) => pure (.error e, m₁)) h
  rw [hrun] at hcomes
  rw [start_bind]
  exact hcomes

end Operation

/-! ## Reports and waits of a client -/

namespace Client

variable {c : Client} {operation target : String}

/-- A report gives its notices and does nothing else. -/
theorem deeds_reportRetry (c : Client) (event : RetryEvent) (b : Backend σ) (m : Memory)
    (h : Host σ) :
    (c.reportRetry event).deeds b m h = (c.report event (m.throttleCount + 1)).map .told := by
  unfold Operation.deeds
  rw [start_reportRetry, (Program.comes_foldr_tell b _ _ h).deeds_eq]
  exact List.append_nil _

/-- A pause is a wait that the shutdown turns into a failure. -/
theorem start_pause (d : Duration) (m : Memory) :
    (c.pause operation target d).start m = .wait d fun
      | .elapsed => .done (.ok (), m)
      | .interrupted => .tell (.waitInterrupted operation target)
          (.done (.error (.interrupted (c.site operation target)), m)) := by
  show Program.wait d _ = _
  congr 1
  funext ending
  cases ending with
  | elapsed => rfl
  | interrupted => rfl

theorem deeds_pause_of_elapsed (c : Client) (operation target : String) (b : Backend σ)
    (m : Memory) {h : Host σ} {d : Duration} (hd : (h.sleep d).1 = .elapsed) :
    (c.pause operation target d).deeds b m h = [.waited d .elapsed] := by
  unfold Operation.deeds
  rw [start_pause, (Program.comes_wait b d _ h).deeds_eq, hd]
  rfl

end Client

end TableTree
