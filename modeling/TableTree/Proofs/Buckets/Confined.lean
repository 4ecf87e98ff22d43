import TableTree.Proofs.Buckets.Requests
import TableTree.Proofs.Delivery
import TableTree.Proofs.Retry

/-!
# Operations confined to one bucket

An operation is confined to a bucket if it sends nothing but requests about items of the bucket,
whatever it is answered. Trying again sends the same request, and the batches that a list of writes
goes out in hold nothing but these writes.

Results:

* `Program.Confined`, `Operation.Confined`: confined programs and operations, with a condition on
  their results.
* `Operation.Confined.bind`, `Operation.Confined.exchanges`: one confined operation after another,
  and the exchanges of its runs.
* `Client.confined_once`, `Client.confined_retry`: requests tried once, and under the policy.
* `Outbox.Sends.mem_unsent_of_mem_batch`, `Client.confined_writeAll`: writing in batches.
-/

namespace TableTree

open Operation

variable {α β : Type} {t : String} {b : Bucket} {m : Memory}

/-! ## Confined programs and operations -/

/-- All that was exchanged was about items of a bucket in the table `t`. -/
def LoggedIn (t : String) (b : Bucket) (log : List Exchange) : Prop := ∀ x ∈ log, x.1.IsIn t b

theorem LoggedIn.concat {log : List Exchange} {r : Request} (h : LoggedIn t b log) (hr : r.IsIn t b)
    (answer : r.Answer) : LoggedIn t b (log ++ [⟨r, answer⟩]) := by
  intro x hx
  rcases List.mem_append.1 hx with hx | hx
  · exact h x hx
  · rw [List.mem_singleton.1 hx]
    exact hr

/-- Every run sends requests about items of a bucket in the table `t` and no others, and its result
meets the condition `P`. -/
def Program.Confined (t : String) (b : Bucket) (p : Program α) (P : α → Prop) : Prop :=
  ∀ time st, LoggedIn t b st.2 → p.Always (tableWorld t time).logged st fun a st' =>
    LoggedIn t b st'.2 ∧ P a

/-- Every run from the memory `m` sends requests about items of a bucket in the table `t` and no
others, and after success the condition `P` holds of the result and the memory. -/
def Operation.Confined (t : String) (b : Bucket) (m : Memory) (x : Operation α)
    (P : α → Memory → Prop) : Prop :=
  ∀ time st, LoggedIn t b st.2 → x.Always (tableWorld t time).logged m st fun r m' st' =>
    LoggedIn t b st'.2 ∧ ∀ a, r = .ok a → P a m'

namespace Program

theorem confined_pure {a : α} {P : α → Prop} (h : P a) : (pure a : Program α).Confined t b P :=
  fun _ _ hlog => ⟨hlog, h⟩

theorem confined_ask {r : Request} {P : r.Answer → Prop} (hr : r.IsIn t b)
    (h : ∀ answer st st', Served r st answer st' → P answer) : (ask r).Confined t b P := by
  intro time st hlog
  rw [always_ask]
  rintro answer ⟨items, log⟩ ⟨hanswers, hlog'⟩
  dsimp only at hlog'
  subst hlog'
  exact ⟨hlog.concat hr answer, h answer _ _ (served_of_answers hr.table_eq hanswers)⟩

theorem Confined.bind {p : Program α} {f : α → Program β} {P : α → Prop} {Q : β → Prop}
    (hp : p.Confined t b P) (hf : ∀ a, P a → (f a).Confined t b Q) : (p >>= f).Confined t b Q := by
  intro time st hlog
  rw [always_bind]
  refine (hp time st hlog).imp ?_
  rintro a st' ⟨hlog', ha⟩
  exact hf a ha time st' hlog'

end Program

namespace Operation

variable {P : α → Memory → Prop} {Q : β → Memory → Prop}

theorem confined_pure {a : α} (h : P a m) : (pure a : Operation α).Confined t b m P := by
  intro time st hlog
  rw [always_pure]
  refine ⟨hlog, ?_⟩
  rintro _ ⟨⟩
  exact h

theorem confined_ofPath {x : Except PathFault α} (h : ∀ a, x = .ok a → P a m) :
    (ofPath x).Confined t b m P := by
  intro time st hlog
  unfold ofPath
  rw [always_ofResult]
  refine ⟨hlog, ?_⟩
  cases x with
  | ok a =>
    rintro _ ⟨⟩
    exact h a rfl
  | error fault => nofun

theorem confined_now {P : Int64 → Memory → Prop} (h : ∀ time, P time m) :
    (perform .now).Confined t b m P := by
  intro time st hlog
  rw [always_perform, Program.always_now]
  intro time _
  refine ⟨hlog, ?_⟩
  rintro _ ⟨⟩
  exact h time

theorem Confined.bind {x : Operation α} {f : α → Operation β} (hx : x.Confined t b m P)
    (hf : ∀ a m', P a m' → (f a).Confined t b m' Q) : (x >>= f).Confined t b m Q := by
  intro time st hlog
  refine (hx time st hlog).bind ?_ ?_
  · rintro a m' st' ⟨hlog', ha⟩
    exact hf a m' (ha a rfl) time st' hlog'
  · rintro e m' st' ⟨hlog', -⟩
    exact ⟨hlog', nofun⟩

theorem Confined.imp {x : Operation α} {P' : α → Memory → Prop} (hx : x.Confined t b m P)
    (h : ∀ a m', P a m' → P' a m') : x.Confined t b m P' := by
  intro time st hlog
  refine (hx time st hlog).imp ?_
  rintro r m' st' ⟨hlog', hr⟩
  exact ⟨hlog', fun a ha => h a m' (hr a ha)⟩

/-- A run of a confined operation exchanges nothing but requests about items of the bucket. -/
theorem Confined.exchanges {x : Operation α} (hx : x.Confined t b m P) {h : Host Service}
    (hcalm : h.state.IsCalm) : LoggedIn t b (x.exchanges Service.backend m h) := by
  have hempty : LoggedIn t b [] := fun _ hx => absurd hx List.not_mem_nil
  have hall := hx h.now (h.state.items? t, []) hempty
  have hrun := Operation.Always.run_logged (Service.within_tableWorld t h.now) hcalm rfl hall
  exact hrun.1

/-- An operation of which only the effect is wanted. -/
theorem Confined.discard {x : Operation α} {c : β} (hx : x.Confined t b m P) :
    (x >>= fun _ => pure c).Confined t b m fun _ _ => True :=
  hx.bind fun _ _ _ => confined_pure trivial

end Operation

namespace Client

variable {c : Client} {operation target : String} {attempt : Program (Except ServiceError α)}
  {P : α → Prop}

/-- A request tried once keeps the memory. -/
theorem confined_once (h : attempt.Confined t b fun r => ∀ a, r = .ok a → P a) :
    (c.once operation target attempt).Confined t b m fun a m' => m' = m ∧ P a := by
  intro time st hlog
  unfold once
  rw [always_bind, always_perform]
  refine (h time st hlog).imp ?_
  rintro r st' ⟨hlog', hr⟩
  cases r with
  | ok a =>
    refine ⟨hlog', ?_⟩
    rintro _ ⟨⟩
    exact ⟨rfl, hr a rfl⟩
  | error e => exact ⟨hlog', nofun⟩

theorem confined_retry {idempotent : Bool}
    (h : attempt.Confined t b fun r => ∀ a, r = .ok a → P a) :
    (c.retry operation target idempotent attempt).Confined t b m fun a _ => P a := by
  intro time st hlog
  refine (always_retry (Q := fun a st' => LoggedIn t b st'.2 ∧ P a) (I := fun st' => LoggedIn t b st'.2)
    ?_ m hlog).imp ?_
  · intro st₁ hlog₁
    refine (h time st₁ hlog₁).imp ?_
    rintro r st' ⟨hlog', hr⟩
    cases r with
    | ok a => exact ⟨hlog', hr a rfl⟩
    | error e => exact hlog'
  · intro r m' st' hr
    cases r with
    | ok a =>
      refine ⟨hr.1, ?_⟩
      rintro _ ⟨⟩
      exact hr.2
    | error e => exact ⟨hr, nofun⟩

end Client

/-! ## Writing in batches -/

/-- The batches that empty an outbox hold nothing but what was in it. -/
theorem Outbox.Sends.mem_unsent_of_mem_batch {limit : Nat} {o o' : Outbox} {ds : List Delivery}
    (h : o.Sends limit ds o') {d : Delivery} (hd : d ∈ ds) {w : Write} (hw : w ∈ d.batch) :
    w ∈ o.unsent := by
  induction ds generalizing o with
  | nil => cases hd
  | cons d' ds ih =>
    obtain ⟨-, hbatch, howed, hsends⟩ := h
    rw [← Outbox.next_append_later limit o, List.mem_append]
    rcases List.mem_cons.1 hd with rfl | hd
    · exact .inl (hbatch ▸ hw)
    · rcases List.mem_append.1 (ih hsends hd) with hw | hw
      · exact .inl (hbatch ▸ howed.subset hw)
      · exact .inr hw

/-- Writing in batches sends nothing but the writes. -/
theorem Client.confined_writeAll {c : Client} (hc : c.table = t) (limit : Nat) {deletes : List Key}
    {puts : List Item} (hdeletes : ∀ key ∈ deletes, key.IsIn b)
    (hputs : ∀ item ∈ puts, item.key.IsIn b) :
    (c.writeAll limit deletes puts).Confined t b m fun _ _ => True := by
  intro time st hlog
  have hwrites : ∀ w ∈ deletes.map Write.delete ++ puts.map Write.put, w.key.IsIn b := by
    intro w hw
    rcases List.mem_append.1 hw with hw | hw
    · obtain ⟨key, hkey, rfl⟩ := List.mem_map.1 hw
      exact hdeletes key hkey
    · obtain ⟨item, hitem, rfl⟩ := List.mem_map.1 hw
      exact hputs item hitem
  have hdelivered {o : Outbox} {st' : Option Items × List Exchange}
      (h : Delivered c.table (max limit 1) ⟨[], deletes.map .delete ++ puts.map .put⟩ st o st') :
      LoggedIn t b st'.2 := by
    obtain ⟨ds, hsends, -, hlog'⟩ := h
    rw [hlog']
    intro x hx
    rcases List.mem_append.1 hx with hx | hx
    · exact hlog x hx
    · obtain ⟨d, hd, rfl⟩ := List.mem_map.1 hx
      exact ⟨hc, fun w hw => hwrites w (hsends.mem_unsent_of_mem_batch hd hw)⟩
  have hW : (tableWorld t time).TakesFromFront c.table := fun _ _ _ _ h => served_of_answers hc h
  refine (always_writeAll_logged hW limit deletes puts m st).imp ?_
  intro r m' st' h
  cases r with
  | ok n => exact ⟨hdelivered h.2, fun _ _ => trivial⟩
  | error e =>
    obtain ⟨o, hd, -⟩ := h
    exact ⟨hdelivered hd, fun _ _ => trivial⟩

end TableTree
