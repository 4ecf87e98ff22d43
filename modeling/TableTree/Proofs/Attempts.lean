import TableTree.Client
import TableTree.Host

/-!
# Runs of attempts

What the client does beside its requests is to wait, to give notice and to count, which leaves the
service and what the store knows of its table alone. So what holds of the attempt that succeeds holds
of the request that was tried again and again.

Results:

* `Host.Later`, `Host.sleep_elapsed_cases`: waits that come to their end, and which do;
  `WaitEnd.Won` is about those of them that the shutdown might have ended.
* `Host.mapState`, `Program.run_mapState`: programs on two backends that answer alike.
* `Operation.Idle`: operations that send nothing.
* `Operation.Remembers`: operations that keep what is known of the table.
* `Client.run_retryFrom`: what holds of the attempt that succeeds holds of the whole.
* `Client.run_retryFrom_of_ok`, `Client.run_retryFrom_of_isPermanent`: the first attempt may be the
  only one.
-/

namespace TableTree

open Operation

variable {σ τ α β : Type}

/-! ## Memories and hosts -/

/-- What a store knows of its table is the same; how often it was throttled does not matter. -/
structure Memory.Alike (m m' : Memory) : Prop where
  binding_eq : m'.binding = m.binding
  destroyed_eq : m'.destroyed = m.destroyed

theorem Memory.Alike.refl (m : Memory) : m.Alike m := ⟨rfl, rfl⟩

theorem Memory.Alike.symm {m m' : Memory} (h : m.Alike m') : m'.Alike m :=
  ⟨h.binding_eq.symm, h.destroyed_eq.symm⟩

theorem Memory.Alike.trans {m m' m'' : Memory} (h : m.Alike m') (h' : m'.Alike m'') : m.Alike m'' :=
  ⟨h'.binding_eq.trans h.binding_eq, h'.destroyed_eq.trans h.destroyed_eq⟩

namespace WaitEnd

/-- Of the waits that `ties` decides on, some have come to their end, and `left` decides on the
others. -/
def Won (ties left : List WaitEnd) : Prop := ∃ n, ties = List.replicate n .elapsed ++ left

variable {ties left : List WaitEnd}

theorem Won.refl (ties : List WaitEnd) : Won ties ties := ⟨0, rfl⟩

theorem Won.trans {rest : List WaitEnd} (h : Won ties left) (h' : Won left rest) :
    Won ties rest := by
  obtain ⟨n, rfl⟩ := h
  obtain ⟨n', rfl⟩ := h'
  exact ⟨n + n', by rw [← List.append_assoc, List.replicate_append_replicate]⟩

/-- One more wait comes to its end. -/
theorem won_tail (hfirst : ties.headD .elapsed = .elapsed) : Won ties ties.tail := by
  cases ties with
  | nil => exact .refl []
  | cons first rest =>
    obtain rfl : first = .elapsed := hfirst
    exact ⟨1, rfl⟩

/-- Where one more wait comes to its end, it does so as well when earlier ones are not decided on
yet. -/
theorem Won.step (h : Won ties left) (hfirst : left.headD .elapsed = .elapsed) :
    ties.headD .elapsed = .elapsed ∧ Won ties.tail left.tail := by
  obtain ⟨n, rfl⟩ := h
  cases n with
  | zero => exact ⟨hfirst, .refl _⟩
  | succ n => exact ⟨rfl, .trans ⟨n, rfl⟩ (won_tail hfirst)⟩

end WaitEnd

namespace Host

/-- The host `k` is the host `h` after waits that have come to their end. -/
structure Later (h k : Host σ) : Prop where
  state_eq : k.state = h.state
  now_eq : k.now = h.now
  closesAt_eq : k.closesAt = h.closesAt
  timer_eq : k.timer = h.timer
  elapsed_le : h.elapsed ≤ k.elapsed
  ties : WaitEnd.Won h.ties k.ties

theorem Later.refl (h : Host σ) : h.Later h := ⟨rfl, rfl, rfl, rfl, Nat.le_refl _, .refl _⟩

theorem Later.trans {h k l : Host σ} (hk : h.Later k) (hl : k.Later l) : h.Later l :=
  ⟨hl.state_eq.trans hk.state_eq, hl.now_eq.trans hk.now_eq, hl.closesAt_eq.trans hk.closesAt_eq,
    hl.timer_eq.trans hk.timer_eq, Nat.le_trans hk.elapsed_le hl.elapsed_le, hk.ties.trans hl.ties⟩

variable {h : Host σ} {d : Duration}

theorem le_ending (h : Host σ) (d : Duration) : h.elapsed ≤ h.ending d := Nat.le_add_right ..

/-- A wait that is over before the shutdown. -/
theorem sleep_of_before (hbefore : ∀ t, h.closesAt = some t → h.ending d < t) :
    h.sleep d = (.elapsed, { h with elapsed := h.ending d }) := by
  unfold sleep
  split
  · rfl
  · rename_i t ht
    rw [if_pos (hbefore t ht)]

/-- When no shutdown is to come, every wait comes to its end. -/
theorem sleep_of_open (hopen : h.closesAt = none) (d : Duration) :
    h.sleep d = (.elapsed, { h with elapsed := h.ending d }) :=
  sleep_of_before (by rw [hopen]; nofun)

/-- A wait that is over when the shutdown is there as well. -/
theorem sleep_of_tie {t : Nat} (hc : h.closesAt = some t) (ht : t ≤ h.ending d)
    (hover : h.elapsed < h.ending d → h.ending d ≤ t) :
    h.sleep d =
      (h.ties.headD .elapsed, { h with elapsed := h.ending d, ties := h.ties.tail }) := by
  unfold sleep
  rw [hc]
  dsimp only
  rw [if_neg (by omega), if_neg (by omega)]

/-- A wait that comes to its end is over before the shutdown, or it is decided on when both are
there. -/
theorem sleep_elapsed_cases (hd : (h.sleep d).1 = .elapsed) :
    (∀ t, h.closesAt = some t → h.ending d < t) ∨
      ∃ t, h.closesAt = some t ∧ t ≤ h.ending d ∧ (h.elapsed < h.ending d → h.ending d ≤ t) ∧
        h.ties.headD .elapsed = .elapsed := by
  unfold sleep at hd
  split at hd
  · rename_i hc
    exact .inl (by rw [hc]; nofun)
  · rename_i t hc
    split at hd
    · rename_i hbefore
      exact .inl fun t' ht' => Option.some.inj (hc.symm.trans ht') ▸ hbefore
    · split at hd
      · cases hd
      · exact .inr ⟨t, hc, by omega, by omega, hd⟩

theorem later_sleep (hd : (h.sleep d).1 = .elapsed) : h.Later (h.sleep d).2 := by
  obtain hbefore | ⟨t, hc, ht, hover, hfirst⟩ := sleep_elapsed_cases hd
  · rw [sleep_of_before hbefore]
    exact ⟨rfl, rfl, rfl, rfl, h.le_ending d, .refl _⟩
  · rw [sleep_of_tie hc ht hover]
    exact ⟨rfl, rfl, rfl, rfl, h.le_ending d, WaitEnd.won_tail hfirst⟩

end Host

/-! ## Backends that answer alike -/

/-- The host with its backend in another state, of another kind perhaps. -/
def Host.mapState (f : σ → τ) (h : Host σ) : Host τ :=
  ⟨f h.state, h.now, h.elapsed, h.closesAt, h.notices, h.timer, h.ties⟩

/-- A wait does not look at the state. -/
theorem Host.sleep_mapState (f : σ → τ) (h : Host σ) (d : Duration) :
    (h.mapState f).sleep d = ((h.sleep d).1, (h.sleep d).2.mapState f) := by
  obtain ⟨state, now, elapsed, closesAt, notices, timer, ties⟩ := h
  unfold mapState sleep ending
  dsimp only
  cases closesAt with
  | none => rfl
  | some t =>
    dsimp only
    split
    · rfl
    · split
      · rfl
      · rfl

section Alike

variable {b : Backend σ} {b' : Backend τ} {f : σ → τ}

/-- Where one backend answers as another one does, and moves on alike, programs run alike. -/
theorem Program.run_mapState
    (hf : ∀ r st, b'.answer r (f st) = ((b.answer r st).1, f (b.answer r st).2)) (p : Program α)
    (h : Host σ) : p.run b' (h.mapState f) = ((p.run b h).1, (p.run b h).2.mapState f) := by
  induction p generalizing h with
  | done a => rfl
  | send r next ih =>
    show (next (b'.answer r (f h.state)).1).run b'
      { h.mapState f with state := (b'.answer r (f h.state)).2 } = _
    rw [hf]
    exact ih _ { h with state := (b.answer r h.state).2 }
  | wait d next ih =>
    show (next ((h.mapState f).sleep d).1).run b' ((h.mapState f).sleep d).2 = _
    rw [h.sleep_mapState]
    exact ih _ _
  | clock next ih => exact ih h.now h
  | tell n next ih => exact ih { h with notices := h.notices ++ [n] }

theorem Operation.run_mapState
    (hf : ∀ r st, b'.answer r (f st) = ((b.answer r st).1, f (b.answer r st).2)) (x : Operation α)
    (m : Memory) (h : Host σ) :
    x.run b' m (h.mapState f) =
      ⟨(x.run b m h).outcome, (x.run b m h).memory, (x.run b m h).host.mapState f⟩ := by
  unfold Operation.run
  rw [Program.run_mapState hf]

end Alike

/-! ## One operation after another -/

namespace Operation

/-- Of two operations, one after the other, both succeed if all does. -/
theorem exists_run_of_run_bind {b : Backend σ} {x : Operation α} {f : α → Operation β} {m : Memory}
    {h : Host σ} {c : β} (hok : ((x >>= f).run b m h).outcome = .ok c) :
    ∃ a m₁ h₁, x.run b m h = ⟨.ok a, m₁, h₁⟩ ∧ (x >>= f).run b m h = (f a).run b m₁ h₁ := by
  rw [run_bind] at hok ⊢
  rcases hx : x.run b m h with ⟨_ | a, m₁, h₁⟩
  · rw [hx] at hok
    cases hok
  · exact ⟨a, m₁, h₁, rfl, rfl⟩

theorem run_bind_of_ok {b : Backend σ} {x : Operation α} {f : α → Operation β} {m m₁ : Memory}
    {h h₁ : Host σ} {a : α} (hx : x.run b m h = ⟨.ok a, m₁, h₁⟩) :
    (x >>= f).run b m h = (f a).run b m₁ h₁ := by
  rw [run_bind, hx]
  rfl

@[simp] theorem run_outcome (b : Backend σ) (x : Operation α) (m : Memory) (h : Host σ) :
    (outcome x).run b m h = ⟨.ok (x.run b m h).outcome, (x.run b m h).memory, (x.run b m h).host⟩ := by
  show (let ((outcome, memory), host) := ((x.start m) >>= fun
      (a, m) => pure (Except.ok a, m)).run b h
    (⟨outcome, memory, host⟩ : Run σ (Except StoreError α))) = _
  simp only [Program.run_bind, Program.run_pure]
  rfl

end Operation

/-! ## Single attempts -/

/-- The condition `Q` on a result and the state after it, or the condition `I` on the state after a
failure for now. -/
def Tried {σ : Type} (Q : α → σ → Prop) (I : σ → Prop) : Except ServiceError α × σ → Prop
  | (.ok a, st) => Q a st
  | (.error e, st) => e.isPermanent = false → I st

theorem Tried.of {σ : Type} {Q : α → σ → Prop} {I : σ → Prop} {result : Except ServiceError α × σ}
    (ok : ∀ a, result.1 = .ok a → Q a result.2)
    (error : ∀ e, result.1 = .error e → e.isPermanent = false → I result.2) : Tried Q I result := by
  obtain ⟨answer, st⟩ := result
  cases answer with
  | ok a => exact ok a rfl
  | error e => exact error e rfl

theorem Tried.imp {σ : Type} {Q Q' : α → σ → Prop} {I I' : σ → Prop}
    {result : Except ServiceError α × σ} (h : Tried Q I result) (hQ : ∀ a st, Q a st → Q' a st)
    (hI : ∀ st, I st → I' st) : Tried Q' I' result := by
  obtain ⟨_ | a, st⟩ := result
  · exact fun hnow => hI st (h hnow)
  · exact hQ a st h

namespace Program

theorem run_ask (b : Backend σ) (r : Request) (h : Host σ) :
    (ask r).run b h =
      ((b.answer r h.state).1, { h with state := (b.answer r h.state).2 }) := rfl

/-- A request is tried as the backend answers it. -/
theorem tried_run_ask {b : Backend σ} {r : Request} {h : Host σ} {Q : r.Reply → Host σ → Prop}
    {I : Host σ → Prop}
    (ht : Tried (fun a s => Q a { h with state := s }) (fun s => I { h with state := s })
      (b.answer r h.state)) : Tried Q I ((ask r).run b h) := by
  rw [run_ask]
  generalize b.answer r h.state = result at ht ⊢
  obtain ⟨_ | a, s⟩ := result
  · exact ht
  · exact ht

end Program

/-- A request that is sent once, whatever is answered. -/
theorem Operation.run_perform_ask {b : Backend σ} {m : Memory} {h : Host σ} {r : Request}
    {answer : r.Answer} {s : σ} (hanswer : b.answer r h.state = (answer, s)) :
    (perform (.ask r)).run b m h = ⟨.ok answer, m, { h with state := s }⟩ := by
  rw [run_perform, Program.run_ask, hanswer]

/-! ## Waiting -/

namespace Operation

/-- An operation that sends nothing: it may wait, give notice, and count. If it succeeds its waits
have come to their end. -/
def Idle (x : Operation α) : Prop :=
  ∀ ⦃σ : Type⦄ (b : Backend σ) (m : Memory) (h : Host σ),
    m.Alike (x.run b m h).memory ∧
      ∀ a, (x.run b m h).outcome = .ok a → h.Later (x.run b m h).host

theorem idle_pure (a : α) : (pure a : Operation α).Idle :=
  fun _ _ m h => ⟨.refl m, fun _ _ => .refl h⟩

theorem idle_throw (e : StoreError) : (throw e : Operation α).Idle :=
  fun _ _ m _ => ⟨.refl m, nofun⟩

theorem idle_notify (n : Notice) : (perform (.notify n)).Idle := by
  intro σ b m h
  rw [run_perform]
  exact ⟨.refl m, fun _ _ => ⟨rfl, rfl, rfl, rfl, Nat.le_refl _, .refl _⟩⟩

theorem Idle.bind {x : Operation α} {f : α → Operation β} (hx : x.Idle) (hf : ∀ a, (f a).Idle) :
    (x >>= f).Idle := by
  intro σ b m h
  obtain ⟨hm, hh⟩ := hx b m h
  rw [run_bind]
  rcases hrun : x.run b m h with ⟨_ | a, m₁, h₁⟩
  · rw [hrun] at hm
    exact ⟨hm, nofun⟩
  · rw [hrun] at hm hh
    obtain ⟨hm', hh'⟩ := hf a b m₁ h₁
    exact ⟨hm.trans hm', fun c hok => (hh a rfl).trans (hh' c hok)⟩

theorem Idle.later {b : Backend σ} {x : Operation α} {m m₁ : Memory} {h h₁ : Host σ} {a : α}
    (hx : x.Idle) (hrun : x.run b m h = ⟨.ok a, m₁, h₁⟩) : h.Later h₁ := by
  have hlater := (hx b m h).2 a
  rw [hrun] at hlater
  exact hlater rfl

/-- An operation that keeps what the store knows of its table, failed or not. -/
def Remembers (x : Operation α) : Prop :=
  ∀ ⦃σ : Type⦄ (b : Backend σ) (m : Memory) (h : Host σ), m.Alike (x.run b m h).memory

theorem Idle.remembers {x : Operation α} (hx : x.Idle) : x.Remembers :=
  fun _ b m h => (hx b m h).1

theorem Remembers.alike {b : Backend σ} {x : Operation α} {m m₁ : Memory} {h h₁ : Host σ}
    {r : Except StoreError α} (hx : x.Remembers) (hrun : x.run b m h = ⟨r, m₁, h₁⟩) :
    m.Alike m₁ := by
  have halike := hx b m h
  rwa [hrun] at halike

theorem remembers_perform (p : Program α) : (perform p).Remembers := by
  intro σ b m h
  rw [run_perform]
  exact .refl m

theorem remembers_ofResult (x : Except StoreError α) : (ofResult x).Remembers :=
  fun _ _ m _ => .refl m

theorem Remembers.outcome {x : Operation α} (hx : x.Remembers) : (outcome x).Remembers := by
  intro σ b m h
  rw [run_outcome]
  exact hx b m h

theorem Remembers.bind {x : Operation α} {f : α → Operation β} (hx : x.Remembers)
    (hf : ∀ a, (f a).Remembers) : (x >>= f).Remembers := by
  intro σ b m h
  have hm := hx b m h
  rw [run_bind]
  rcases hrun : x.run b m h with ⟨_ | a, m₁, h₁⟩
  · rw [hrun] at hm
    exact hm
  · rw [hrun] at hm
    exact hm.trans (hf a b m₁ h₁)

theorem Remembers.forM {f : α → Operation Unit} (hf : ∀ a, (f a).Remembers) (xs : List α) :
    (xs.forM f).Remembers := by
  induction xs with
  | nil => exact (idle_pure ()).remembers
  | cons x xs ih =>
    rw [List.forM_eq_forM, List.forM_cons]
    exact (hf x).bind fun _ => ih

end Operation

namespace Client

variable {c : Client} {operation target : String} {idempotent : Bool}
  {attempt : Program (Except ServiceError α)}

theorem run_pause {b : Backend σ} {m : Memory} {h : Host σ} {d : Duration}
    (hd : (h.sleep d).1 = .elapsed) :
    (c.pause operation target d).run b m h = ⟨.ok (), m, (h.sleep d).2⟩ := by
  rcases hsleep : h.sleep d with ⟨ending, h₁⟩
  rw [hsleep] at hd
  obtain rfl : ending = .elapsed := hd
  unfold pause
  rw [run_bind, run_perform, show (Program.sleep d).run b h = _ from hsleep]
  rfl

theorem run_pause_of_interrupted {b : Backend σ} {m : Memory} {h : Host σ} {d : Duration}
    (hd : (h.sleep d).1 = .interrupted) :
    (c.pause operation target d).run b m h =
      ⟨.error (.interrupted (c.site operation target)), m,
        { (h.sleep d).2 with
          notices := (h.sleep d).2.notices ++ [.waitInterrupted operation target] }⟩ := by
  rcases hsleep : h.sleep d with ⟨ending, h₁⟩
  rw [hsleep] at hd
  obtain rfl : ending = .interrupted := hd
  unfold pause
  rw [run_bind, run_perform, show (Program.sleep d).run b h = _ from hsleep]
  rfl

theorem elapsed_of_run_pause {b : Backend σ} {m : Memory} {h : Host σ} {d : Duration}
    (hok : ((c.pause operation target d).run b m h).outcome = .ok ()) :
    (h.sleep d).1 = .elapsed := by
  cases hd : (h.sleep d).1 with
  | elapsed => rfl
  | interrupted =>
    rw [run_pause_of_interrupted hd] at hok
    cases hok

theorem idle_pause (d : Duration) : (c.pause operation target d).Idle := by
  intro σ b m h
  cases hd : (h.sleep d).1 with
  | elapsed =>
    rw [run_pause hd]
    exact ⟨.refl m, fun _ _ => Host.later_sleep hd⟩
  | interrupted =>
    rw [run_pause_of_interrupted hd]
    exact ⟨.refl m, nofun⟩

theorem idle_countThrottle : countThrottle.Idle := fun _ _ _ h => ⟨⟨rfl, rfl⟩, fun _ _ => .refl h⟩

theorem idle_reportRetry (event : RetryEvent) : (c.reportRetry event).Idle := by
  unfold reportRetry
  dsimp only
  split
  · refine idle_countThrottle.bind fun count => ?_
    split
    · exact (idle_notify _).bind fun _ => idle_notify _
    · exact idle_notify _
  · split
    · exact (idle_notify _).bind fun _ => idle_notify _
    · exact idle_notify _

theorem idle_backOff (count : UInt32) (left : Nat) :
    (c.backOff operation target count left).Idle := by
  unfold backOff
  refine idle_countThrottle.bind fun _ => ?_
  split
  · exact idle_throw _
  · exact (idle_pause _).bind fun _ => idle_pure _

/-! ## Trying again -/

theorem remembers_retryFrom (backoff : Backoff) :
    (c.retryFrom operation target idempotent attempt backoff).Remembers := by
  -- on the waits that are left
  induction hn : backoff.remaining using Nat.strongRecOn generalizing backoff with
  | ind n ih =>
    rw [retryFrom]
    refine (remembers_perform attempt).bind fun result => ?_
    split
    · exact (idle_pure _).remembers
    · dsimp only
      split
      · split
        · exact (idle_throw _).remembers
        · rename_i duration backoff' hnext
          refine (idle_reportRetry _).remembers.bind fun _ =>
            (idle_pause duration).remembers.bind fun _ => ?_
          exact ih _ (hn ▸ Backoff.remaining_lt_of_next? hnext) backoff' rfl
      · exact (idle_throw _).remembers

theorem remembers_retry : (c.retry operation target idempotent attempt).Remembers :=
  remembers_retryFrom _

/-- What holds of the attempt that succeeds holds of the whole, if the attempts that fail for now, and
the waits between them, keep up what attempts start from. -/
theorem run_retryFrom {b : Backend σ} {Q : α → Host σ → Prop} {I : Host σ → Prop}
    (hI : ∀ h k, I h → h.Later k → I k) (hattempt : ∀ h, I h → Tried Q I (attempt.run b h))
    {backoff : Backoff} {m m₁ : Memory} {h h₁ : Host σ} (hh : I h) {a : α}
    (hrun : (c.retryFrom operation target idempotent attempt backoff).run b m h =
      ⟨.ok a, m₁, h₁⟩) : Q a h₁ := by
  -- on the waits that are left
  induction hn : backoff.remaining using Nat.strongRecOn generalizing backoff m h with
  | ind n ih =>
    have htried := hattempt h hh
    rw [retryFrom, run_bind, run_perform] at hrun
    rcases hx : attempt.run b h with ⟨e | a', k⟩
    · rw [hx] at hrun htried
      dsimp only [Run.andThen] at hrun
      split at hrun
      · rename_i hretry
        have hnow : e.isPermanent = false := by
          simp only [shouldRetry, Bool.and_eq_true, Bool.not_eq_true'] at hretry
          exact hretry.1
        split at hrun
        · cases hrun
        · rename_i duration backoff' hnext
          obtain ⟨_, m₂, k₂, hreport, heq⟩ := exists_run_of_run_bind (congrArg (·.outcome) hrun)
          rw [heq] at hrun
          obtain ⟨_, m₃, k₃, hpause, heq⟩ := exists_run_of_run_bind (congrArg (·.outcome) hrun)
          rw [heq] at hrun
          have hlater := ((idle_reportRetry _).later hreport).trans ((idle_pause _).later hpause)
          exact ih _ (hn ▸ Backoff.remaining_lt_of_next? hnext) (hI _ _ (htried hnow) hlater) hrun rfl
      · cases hrun
    · rw [hx] at hrun htried
      cases hrun
      exact htried

/-- An attempt that succeeds is the only one. -/
theorem run_retryFrom_of_ok {b : Backend σ} {backoff : Backoff} {m : Memory} {h : Host σ} {a : α}
    (hok : (attempt.run b h).1 = .ok a) :
    (c.retryFrom operation target idempotent attempt backoff).run b m h =
      ⟨.ok a, m, (attempt.run b h).2⟩ := by
  rw [retryFrom, run_bind, run_perform, hok]
  rfl

/-- A request that is granted at once. -/
theorem run_retry_ask {b : Backend σ} {m : Memory} {h : Host σ} {r : Request} {a : r.Reply} {s : σ}
    (hanswer : b.answer r h.state = (.ok a, s)) :
    (c.retry operation target idempotent (.ask r)).run b m h = ⟨.ok a, m, { h with state := s }⟩ := by
  have hrun : (Program.ask r).run b h = (.ok a, { h with state := s }) := by
    rw [Program.run_ask, hanswer]
  rw [retry, run_retryFrom_of_ok (congrArg Prod.fst hrun), hrun]

/-- An attempt that fails for good is the last one. -/
theorem run_retryFrom_of_isPermanent {b : Backend σ} {backoff : Backoff} {m : Memory} {h : Host σ}
    {e : ServiceError} (herror : (attempt.run b h).1 = .error e) (he : e.isPermanent = true) :
    (c.retryFrom operation target idempotent attempt backoff).run b m h =
      ⟨.error (.backend (c.site operation target) e), m, (attempt.run b h).2⟩ := by
  have hretry : ¬ shouldRetry e idempotent = true := by
    simp [shouldRetry, he]
  rw [retryFrom, run_bind, run_perform, herror]
  dsimp only [Run.andThen]
  rw [if_neg hretry]
  rfl

/-- A request that is refused for good. -/
theorem run_retry_ask_of_isPermanent {b : Backend σ} {m : Memory} {h : Host σ} {r : Request}
    {e : ServiceError} {s : σ} (hanswer : b.answer r h.state = (.error e, s))
    (he : e.isPermanent = true) :
    (c.retry operation target idempotent (.ask r)).run b m h =
      ⟨.error (.backend (c.site operation target) e), m, { h with state := s }⟩ := by
  have hrun : (Program.ask r).run b h = (.error e, { h with state := s }) := by
    rw [Program.run_ask, hanswer]
  rw [retry, run_retryFrom_of_isPermanent (congrArg Prod.fst hrun) he, hrun]

end Client

end TableTree
