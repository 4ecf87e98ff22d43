import TableTree.Proofs.Undisturbed.Service

/-!
# Operations beside their undisturbed runs

An operation runs on two hosts, on the service and on the same service for which nothing is planned.
It is transparent if its success on the first host is a success on the second as well, with the same
result, the same memory up to the count of throttled requests, and hosts that are beside each other
again.

Results:

* `Host.Beside`, `Host.Undisturbed`: a host beside another one that has waited no longer.
* `Program.Repeatable`: an attempt that fails for now has done nothing; `Program.IsReader.repeatable`.
* `Operation.Transparent`, `Operation.Exact`: operations that faults do not show in.
* `Operation.Transparent.bind`: one transparent operation after another.
-/

namespace TableTree

open Operation

variable {σ α β : Type}

/-! ## Hosts -/

namespace Host

/-- The host `h'` stands beside `h` with a state that is related by `R`. It has the same clock, the
same timer, and the same shutdown to come. It has waited no longer, and of its waits no more were
decided on: those were decided for `h` alone have come to their end. -/
structure Beside (R : σ → σ → Prop) (h h' : Host σ) : Prop where
  state : R h.state h'.state
  now_eq : h'.now = h.now
  closesAt_eq : h'.closesAt = h.closesAt
  timer_eq : h'.timer = h.timer
  elapsed_le : h'.elapsed ≤ h.elapsed
  ties : WaitEnd.Won h'.ties h.ties

/-- The host `h'` stands beside `h` with a service for which nothing is planned. -/
abbrev Undisturbed (h h' : Host Service) : Prop := h.Beside Service.Undisturbed h'

variable {R R' : σ → σ → Prop} {h h' k : Host σ}

theorem Beside.later (hh : h.Beside R h') (hk : h.Later k) : k.Beside R h' :=
  ⟨hk.state_eq ▸ hh.state, hh.now_eq.trans hk.now_eq.symm, hh.closesAt_eq.trans hk.closesAt_eq.symm,
    hh.timer_eq.trans hk.timer_eq.symm, Nat.le_trans hh.elapsed_le hk.elapsed_le,
    hh.ties.trans hk.ties⟩

/-- Hosts beside each other after a change of one of their states, or of both. -/
theorem Beside.setLeft (hh : h.Beside R h') {s : σ} (hs : R' s h'.state) :
    Beside R' { h with state := s } h' :=
  ⟨hs, hh.now_eq, hh.closesAt_eq, hh.timer_eq, hh.elapsed_le, hh.ties⟩

theorem Beside.setRight (hh : h.Beside R h') {s' : σ} (hs : R' h.state s') :
    Beside R' h { h' with state := s' } :=
  ⟨hs, hh.now_eq, hh.closesAt_eq, hh.timer_eq, hh.elapsed_le, hh.ties⟩

theorem Beside.set (hh : h.Beside R h') {s s' : σ} (hs : R' s s') :
    Beside R' { h with state := s } { h' with state := s' } :=
  ⟨hs, hh.now_eq, hh.closesAt_eq, hh.timer_eq, hh.elapsed_le, hh.ties⟩

theorem Beside.imp (hh : h.Beside R h') (hs : R' h.state h'.state) : h.Beside R' h' :=
  ⟨hs, hh.now_eq, hh.closesAt_eq, hh.timer_eq, hh.elapsed_le, hh.ties⟩

/-- A wait takes as long on both hosts. -/
theorem Beside.ending_eq (hh : h.Beside R h') (d : Duration) :
    h'.ending d = h'.elapsed + h.timer.millis d :=
  congrArg (h'.elapsed + ·.millis d) hh.timer_eq

/-- A wait that the shutdown does not end is not ended by it on a host that has waited no longer. -/
theorem Beside.sleep (hh : h.Beside R h') {d : Duration} (hd : (h.sleep d).1 = .elapsed) :
    (h'.sleep d).1 = .elapsed ∧ (h.sleep d).2.Beside R (h'.sleep d).2 := by
  have hmillis : h.ending d = h.elapsed + h.timer.millis d := rfl
  have hmillis' := hh.ending_eq d
  have hearlier := hh.elapsed_le
  have hle : h'.ending d ≤ h.ending d := by omega
  obtain hbefore | ⟨t, hc, ht, hover, hfirst⟩ := sleep_elapsed_cases hd
  · have hbefore' (t : Nat) (ht : h'.closesAt = some t) : h'.ending d < t :=
      Nat.lt_of_le_of_lt hle (hbefore t (hh.closesAt_eq.symm.trans ht))
    rw [sleep_of_before hbefore, sleep_of_before hbefore']
    exact ⟨rfl, hh.state, hh.now_eq, hh.closesAt_eq, hh.timer_eq, hle, hh.ties⟩
  · have hc' := hh.closesAt_eq.trans hc
    rw [sleep_of_tie hc ht hover]
    by_cases ht' : h'.ending d < t
    · rw [sleep_of_before fun t' ht' => by
        obtain rfl := Option.some.inj (hc'.symm.trans ht')
        assumption]
      exact ⟨rfl, hh.state, hh.now_eq, hh.closesAt_eq, hh.timer_eq, hle,
        hh.ties.trans (WaitEnd.won_tail hfirst)⟩
    · rw [sleep_of_tie hc' (by omega) (by omega)]
      obtain ⟨hfirst', hties⟩ := hh.ties.step hfirst
      exact ⟨hfirst', hh.state, hh.now_eq, hh.closesAt_eq, hh.timer_eq, hle, hties⟩

end Host

/-! ## Attempts -/

namespace Program

/-- An attempt that succeeds does so undisturbed as well, and one that fails for now leaves the
service as it was. -/
def Repeatable (p : Program (Except ServiceError α)) : Prop :=
  ∀ h h' : Host Service, h.Undisturbed h' →
    Tried (fun a k => (p.run Service.backend h').1 = .ok a ∧
        k.Undisturbed (p.run Service.backend h').2)
      (·.Undisturbed h') (p.run Service.backend h)

theorem repeatable_ask {r : Request} (hr : r.isBatch = false) : (ask r).Repeatable := by
  intro h h' hh
  refine tried_run_ask ((hh.state.tried_answer hr).imp ?_ ?_)
  · exact fun a s hs => ⟨hs.1, hh.set hs.2⟩
  · exact fun s hs => hh.setLeft hs

/-- A program that reads, so that it leaves the service as it was, and reads the same undisturbed,
unless it fails. -/
structure IsReader (p : Program (Except ServiceError α)) : Prop where
  left : ∀ h h' : Host Service, h.Undisturbed h' → (p.run Service.backend h).2.Undisturbed h'
  right : ∀ h h' : Host Service, h.Undisturbed h' → h.Undisturbed (p.run Service.backend h').2
  answer : ∀ h h' : Host Service, h.Undisturbed h' → ∀ a, (p.run Service.backend h).1 = .ok a →
    (p.run Service.backend h').1 = .ok a

theorem IsReader.repeatable {p : Program (Except ServiceError α)} (hp : p.IsReader) :
    p.Repeatable := by
  intro h h' hh
  exact .of (fun a ha => ⟨hp.answer h h' hh a ha, hp.right _ _ (hp.left h h' hh)⟩)
    fun _ _ _ => hp.left h h' hh

theorem isReader_pure (x : Except ServiceError α) : (pure x : Program _).IsReader :=
  ⟨fun _ _ hh => hh, fun _ _ hh => hh, fun _ _ _ _ => id⟩

theorem isReader_ask {r : Request} (hr : r.isRead = true) : (ask r).IsReader where
  left _ _ hh := hh.setLeft (hh.state.answer_read hr).1
  right _ _ hh := hh.setRight (hh.state.answer_read hr).2.1
  answer _ _ hh := (hh.state.answer_read hr).2.2

/-- A reader, followed by readers that start from what it has read. -/
theorem IsReader.bind {p : Program (Except ServiceError α)}
    {f : Except ServiceError α → Program (Except ServiceError β)} (hp : p.IsReader)
    (ok : ∀ a, (f (.ok a)).IsReader) (error : ∀ e, f (.error e) = pure (.error e)) :
    (p >>= f).IsReader := by
  have hf (x : Except ServiceError α) : (f x).IsReader := by
    cases x with
    | ok a => exact ok a
    | error e =>
      rw [error]
      exact isReader_pure _
  refine ⟨fun h h' hh => ?_, fun h h' hh => ?_, fun h h' hh b hb => ?_⟩
  · rw [run_bind]
    exact (hf _).left _ _ (hp.left h h' hh)
  · rw [run_bind]
    exact (hf _).right _ _ (hp.right h h' hh)
  · rw [run_bind] at hb ⊢
    cases hx : (p.run Service.backend h).1 with
    | ok a =>
      rw [hx] at hb
      rw [hp.answer h h' hh a hx]
      exact (ok a).answer _ _ (hp.right _ _ (hp.left h h' hh)) b hb
    | error e =>
      rw [hx, error] at hb
      cases hb

end Program

/-! ## Operations -/

namespace Operation

/-- Runs that come to the same, on a host and on one beside it for which nothing is planned. -/
structure Run.Mirrors (r r' : Run Service α) : Prop where
  outcome_eq : r'.outcome = r.outcome
  memory : r.memory.Alike r'.memory
  host : r.host.Undisturbed r'.host

/-- Faults do not show in an operation: it comes to the same undisturbed. -/
def Exact (x : Operation α) : Prop :=
  ∀ m m' h h', m.Alike m' → h.Undisturbed h' →
    (x.run Service.backend m h).Mirrors (x.run Service.backend m' h')

/-- Faults do not show in an operation unless they make it fail. -/
def Transparent (x : Operation α) : Prop :=
  ∀ m m' h h', m.Alike m' → h.Undisturbed h' → ∀ a, (x.run Service.backend m h).outcome = .ok a →
    (x.run Service.backend m h).Mirrors (x.run Service.backend m' h')

theorem Exact.transparent {x : Operation α} (hx : x.Exact) : x.Transparent :=
  fun m m' h h' hm hh _ _ => hx m m' h h' hm hh

/-- One transparent operation after another. -/
theorem Transparent.bind {x : Operation α} {f : α → Operation β} (hx : x.Transparent)
    (hf : ∀ a, (f a).Transparent) : (x >>= f).Transparent := by
  intro m m' h h' hm hh c hok
  obtain ⟨a, m₁, h₁, hrun, heq⟩ := exists_run_of_run_bind hok
  rw [heq] at hok ⊢
  have hmirrors := hx m m' h h' hm hh a (by rw [hrun])
  rw [hrun] at hmirrors
  rcases hrun' : x.run Service.backend m' h' with ⟨r, m₁', h₁'⟩
  rw [hrun'] at hmirrors
  obtain ⟨rfl, hm₁, hh₁⟩ := hmirrors
  rw [run_bind_of_ok hrun']
  exact hf a m₁ m₁' h₁ h₁' hm₁ hh₁ c hok

theorem transparent_pure (a : α) : (pure a : Operation α).Transparent :=
  fun _ _ _ _ hm hh _ _ => ⟨rfl, hm, hh⟩

theorem transparent_ofResult (x : Except StoreError α) : (ofResult x).Transparent :=
  fun _ _ _ _ hm hh _ _ => ⟨rfl, hm, hh⟩

/-- An operation that fails is transparent. -/
theorem transparent_throw (e : StoreError) : (throw e : Operation α).Transparent :=
  fun _ _ _ _ _ _ _ hok => nomatch hok

/-- The clock is the same. -/
theorem transparent_now : (perform .now).Transparent := by
  intro m m' h h' hm hh time hok
  rw [run_perform] at hok ⊢
  rw [run_perform]
  exact ⟨congrArg Except.ok hh.now_eq, hm, hh⟩

/-- An operation that starts from what is known of the table. -/
theorem transparent_get_bind {f : Memory → Operation α} (hf : ∀ m, (f m).Transparent)
    (heq : ∀ m m', m.Alike m' → f m' = f m) : (getThe Memory >>= f).Transparent := by
  intro m m' h h' hm hh a hok
  have hrun (m : Memory) (h : Host Service) :
      (getThe Memory >>= f).run Service.backend m h = (f m).run Service.backend m h :=
    run_bind ..
  rw [hrun] at hok ⊢
  rw [hrun, heq m m' hm]
  exact hf m m m' h h' hm hh a hok

theorem transparent_modify {f : Memory → Memory} (hf : ∀ m m', m.Alike m' → (f m).Alike (f m')) :
    (modify f : Operation Unit).Transparent :=
  fun m m' _ _ hm hh _ _ => ⟨rfl, hf m m' hm, hh⟩

/-- A request about a table, once. -/
theorem exact_ask {r : Request} (hr : r.isControl = true) : (perform (.ask r)).Exact := by
  intro m m' h h' hm hh
  rw [run_perform, run_perform]
  have halike := hh.state.answer_control hr
  exact ⟨congrArg Except.ok halike.answer_eq, hm, hh.set halike.undisturbed⟩

/-- What an operation comes to, as a value, if faults do not show in it. -/
theorem Exact.outcome {x : Operation α} (hx : x.Exact) : (outcome x).Transparent := by
  intro m m' h h' hm hh r _
  rw [run_outcome, run_outcome]
  have hmirrors := hx m m' h h' hm hh
  exact ⟨congrArg Except.ok hmirrors.outcome_eq, hmirrors.memory, hmirrors.host⟩

theorem transparent_forM {f : α → Operation Unit} (hf : ∀ a, (f a).Transparent) (xs : List α) :
    (xs.forM f).Transparent := by
  induction xs with
  | nil => exact transparent_pure ()
  | cons x xs ih =>
    rw [List.forM_eq_forM, List.forM_cons]
    exact (hf x).bind fun _ => ih

end Operation

end TableTree
