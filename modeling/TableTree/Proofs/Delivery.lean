import TableTree.BulkWrite
import TableTree.Proofs.Exchanges
import TableTree.Proofs.OneTable

/-!
# Writes on their way

A list of writes goes out slice by slice. What the service leaves out of a batch goes out again, and
nothing else before it. Whatever is throttled, fails, or is cut short on the way, the writes that the
service has processed are the first ones of the list, each of them once.

Results:

* `Delivery`, `Outbox`: a batch with its answer, and what is still to be sent.
* `Outbox.Sends`: deliveries that empty an outbox in order; `Outbox.Sends.unsent_eq` says that they
  take the writes processed off its front.
* `Client.always_writeAll_logged`: writing in batches, in every world that takes batches from the
  front.
* `Client.deliveries_writeAll`: the same of a run on the simulated service.
-/

namespace TableTree

open Operation

/-! ## Deliveries -/

/-- A batch that was sent, with the answer to it. -/
structure Delivery where
  batch : List Write
  answer : Except ServiceError (List Write)

namespace Delivery

/-- The exchange that a delivery to a table is. -/
def exchange (t : String) (d : Delivery) : Exchange := ⟨.batchWrite t d.batch, d.answer⟩

/-- What has to go out again: what the service has left out, or the whole batch if it has failed. -/
def owed (d : Delivery) : List Write :=
  match d.answer with
  | .ok left => left
  | .error _ => d.batch

/-- The number of writes that the service has processed. -/
def processed (d : Delivery) : Nat := d.batch.length - d.owed.length

theorem take_processed_ok (batch : List Write) (k : Nat) :
    batch.take (Delivery.mk batch (.ok (batch.drop k))).processed = batch.take k := by
  simp only [processed, owed]
  rw [List.take_eq_take_iff, List.length_drop]
  omega

theorem processed_error (batch : List Write) (e : ServiceError) :
    (Delivery.mk batch (.error e)).processed = 0 :=
  Nat.sub_self _

end Delivery

/-- The number of writes that the service has processed in all of some deliveries. -/
def processed : List Delivery → Nat
  | [] => 0
  | d :: ds => d.processed + processed ds

@[simp] theorem processed_nil : processed [] = 0 := rfl

@[simp] theorem processed_cons (d : Delivery) (ds : List Delivery) :
    processed (d :: ds) = d.processed + processed ds := rfl

theorem processed_append (ds ds' : List Delivery) :
    processed (ds ++ ds') = processed ds + processed ds' := by
  induction ds with
  | nil => simp
  | cons d ds ih => rw [List.cons_append, processed_cons, processed_cons, ih, Nat.add_assoc]

/-! ## Outboxes -/

/-- What is still to be sent: what is owed of the batch that went out last, and the writes that no
batch has held yet. -/
structure Outbox where
  owed : List Write
  rest : List Write

namespace Outbox

variable {limit : Nat} {o o' o'' : Outbox} {d : Delivery} {ds ds' : List Delivery}

/-- All that is still to be sent, in order. -/
def unsent (o : Outbox) : List Write := o.owed ++ o.rest

/-- The batch that goes out next: all that is owed, or else the next slice. -/
def next (limit : Nat) (o : Outbox) : List Write :=
  if o.owed = [] then o.rest.take limit else o.owed

/-- The writes that are in no batch yet when the next one has gone out. -/
def later (limit : Nat) (o : Outbox) : List Write :=
  if o.owed = [] then o.rest.drop limit else o.rest

/-- Deliveries that send what an outbox has to send, and leave another one: each is the next batch,
and what is owed after it is a rest of it. -/
def Sends (limit : Nat) : Outbox → List Delivery → Outbox → Prop
  | o, [], o' => o' = o
  | o, d :: ds, o' =>
    d.batch ≠ [] ∧ d.batch = o.next limit ∧ d.owed <:+ d.batch ∧
      Sends limit ⟨d.owed, o.later limit⟩ ds o'

theorem next_append_later (limit : Nat) (o : Outbox) :
    o.next limit ++ o.later limit = o.unsent := by
  unfold next later unsent
  split
  · rename_i h
    rw [h, List.take_append_drop, List.nil_append]
  · rfl

theorem next_of_owed (limit : Nat) {owed rest : List Write} (h : owed ≠ []) :
    (Outbox.mk owed rest).next limit = owed :=
  if_neg h

theorem later_of_owed (limit : Nat) {owed rest : List Write} (h : owed ≠ []) :
    (Outbox.mk owed rest).later limit = rest :=
  if_neg h

theorem Sends.append (h : o.Sends limit ds o') (h' : o'.Sends limit ds' o'') :
    o.Sends limit (ds ++ ds') o'' := by
  induction ds generalizing o with
  | nil =>
    cases h
    exact h'
  | cons d ds ih => exact ⟨h.1, h.2.1, h.2.2.1, ih h.2.2.2⟩

/-- A rest of a batch is what is left of it after the writes processed. -/
theorem owed_eq_drop (h : d.owed <:+ d.batch) : d.owed = d.batch.drop d.processed :=
  (List.suffix_iff_eq_drop.1 h)

/-- Deliveries take the writes that the service has processed off the front of what is to be sent. -/
theorem Sends.unsent_eq (h : o.Sends limit ds o') :
    processed ds ≤ o.unsent.length ∧ o'.unsent = o.unsent.drop (processed ds) := by
  induction ds generalizing o with
  | nil =>
    cases h
    exact ⟨Nat.zero_le _, rfl⟩
  | cons d ds ih =>
    obtain ⟨-, hbatch, hrest, hsends⟩ := h
    obtain ⟨hle, hunsent⟩ := ih hsends
    have hd : d.processed ≤ d.batch.length := Nat.sub_le ..
    have hfirst : (Outbox.mk d.owed (o.later limit)).unsent = o.unsent.drop d.processed := by
      rw [← next_append_later limit o, ← hbatch, List.drop_append_of_le_length hd,
        ← owed_eq_drop hrest]
      rfl
    rw [hfirst] at hle hunsent
    have hlength : d.batch.length ≤ o.unsent.length := by
      rw [← next_append_later limit o, ← hbatch, List.length_append]
      exact Nat.le_add_right ..
    rw [List.length_drop] at hle
    refine ⟨?_, ?_⟩
    · rw [processed_cons]
      omega
    · rw [hunsent, List.drop_drop, processed_cons]

end Outbox

/-! ## Deliveries in a world -/

/-- A world whose service takes batches for the table `t` from the front, as far as it takes them. -/
def World.TakesFromFront (W : World (Option Items)) (t : String) : Prop :=
  ∀ writes st answer st', W.answers (.batchWrite t writes) st answer st' →
    Served (.batchWrite t writes) st answer st'

/-- Deliveries to the table `t` have led from one outbox, state and account to another one, and the
writes processed have been done in their order. -/
def Delivered (t : String) (limit : Nat) (o : Outbox) (st : Option Items × List Exchange)
    (o' : Outbox) (st' : Option Items × List Exchange) : Prop :=
  ∃ ds, o.Sends limit ds o' ∧ st'.1 = st.1.map (·.applyAll (o.unsent.take (processed ds))) ∧
    st'.2 = st.2 ++ ds.map (Delivery.exchange t)

/-- Deliveries have led from one outbox, state and account to another state and account, and
something is still to be sent. -/
def Undelivered (t : String) (limit : Nat) (o : Outbox) (st st' : Option Items × List Exchange) :
    Prop :=
  ∃ o', Delivered t limit o st o' st' ∧ o'.unsent ≠ []

section Delivered

variable {t : String} {limit : Nat} {o o' o'' : Outbox} {st st' st'' : Option Items × List Exchange}

theorem Delivered.refl (t : String) (limit : Nat) (o : Outbox)
    (st : Option Items × List Exchange) : Delivered t limit o st o st := by
  refine ⟨[], rfl, ?_, ?_⟩
  · cases h : st.1 <;> simp
  · simp

theorem Delivered.trans (h : Delivered t limit o st o' st')
    (h' : Delivered t limit o' st' o'' st'') : Delivered t limit o st o'' st'' := by
  obtain ⟨ds, hsends, hitems, hlog⟩ := h
  obtain ⟨ds', hsends', hitems', hlog'⟩ := h'
  refine ⟨ds ++ ds', hsends.append hsends', ?_, ?_⟩
  · rw [hitems', hitems, hsends.unsent_eq.2, processed_append, List.take_add, Option.map_map]
    congr 1
    funext items
    exact (Items.applyAll_append ..).symm
  · rw [hlog', hlog, List.map_append, List.append_assoc]

theorem Delivered.undelivered (h : Delivered t limit o st o' st')
    (h' : Undelivered t limit o' st' st'') : Undelivered t limit o st st'' := by
  obtain ⟨o'', hd, hne⟩ := h'
  exact ⟨o'', h.trans hd, hne⟩

/-- When all is delivered, all has been processed. -/
theorem Delivered.of_all (h : Delivered t limit o st ⟨[], []⟩ st') :
    st'.1 = st.1.map (·.applyAll o.unsent) := by
  obtain ⟨ds, hsends, hitems, -⟩ := h
  have hdrop : [] = o.unsent.drop (processed ds) := hsends.unsent_eq.2
  have htake := List.take_append_drop (processed ds) o.unsent
  rw [← hdrop, List.append_nil] at htake
  rw [hitems, htake]

/-- Deliveries, followed by an end that was reached from where they have led. -/
theorem Delivered.endsIn {α ε : Type} {r : Except ε α} (h : Delivered t limit o st o' st')
    (h' : EndsIn (fun _ => Delivered t limit o' st' o'') (Undelivered t limit o' st') r st'') :
    EndsIn (fun _ => Delivered t limit o st o'') (Undelivered t limit o st) r st'' := by
  cases r with
  | ok a => exact h.trans h'
  | error e => exact h.undelivered h'

/-- One delivery of the next batch. -/
theorem delivered_next {d : Delivery} {items' : Option Items} (hne : o.next limit ≠ [])
    (hbatch : d.batch = o.next limit) (hrest : d.owed <:+ d.batch)
    (hitems : items' = st.1.map (·.applyAll (d.batch.take d.processed))) :
    Delivered t limit o st ⟨d.owed, o.later limit⟩ (items', st.2 ++ [d.exchange t]) := by
  refine ⟨[d], ⟨hbatch ▸ hne, hbatch, hrest, rfl⟩, ?_, rfl⟩
  have hle : d.processed ≤ (o.next limit).length := hbatch ▸ Nat.sub_le ..
  rw [processed_cons, processed_nil, Nat.add_zero, ← Outbox.next_append_later limit o,
    List.take_append_of_le_length hle, ← hbatch]
  exact hitems

end Delivered

namespace Client

variable {W : World (Option Items)} {c : Client}

/-- Sending the next batch delivers it, once or several times until the service takes it. -/
theorem always_sendBatch_logged (hW : W.TakesFromFront c.table) (limit : Nat) (o : Outbox)
    (m : Memory) (hne : o.next limit ≠ []) (st : Option Items × List Exchange) :
    (c.sendBatch (o.next limit)).Always W.logged m st fun r _ st' =>
      EndsIn (fun left st' => Delivered c.table limit o st ⟨left, o.later limit⟩ st')
        (Undelivered c.table limit o st) r st' := by
  -- while the attempts fail, the next batch is the same
  let I (st' : Option Items × List Exchange) : Prop := ∃ o', Delivered c.table limit o st o' st' ∧
    o'.next limit = o.next limit ∧ o'.later limit = o.later limit
  have hI : ∀ st', I st' → Undelivered c.table limit o st st' := by
    rintro st' ⟨o', hd, hnext, -⟩
    refine ⟨o', hd, ?_⟩
    rw [← Outbox.next_append_later limit o', hnext]
    simp [hne]
  refine (always_retry
    (Q := fun left st' => Delivered c.table limit o st ⟨left, o.later limit⟩ st') (I := I) ?_ m
    ⟨o, .refl .., rfl, rfl⟩).imp ?_
  · rintro st₁ ⟨o', hd, hnext, hlater⟩
    rw [Program.always_ask]
    rintro answer ⟨items₂, log₂⟩ ⟨hserved, hlog⟩
    dsimp only at hlog
    subst hlog
    have hserved := hW _ _ _ _ hserved
    rw [← hnext] at hne hserved ⊢
    rw [← hlater]
    cases answer with
    | ok left =>
      obtain ⟨items, k, hitems, rfl, rfl⟩ := hserved
      refine hd.trans (delivered_next (d := ⟨o'.next limit, .ok ((o'.next limit).drop k)⟩) hne rfl
        (List.drop_suffix ..) ?_)
      rw [Delivery.take_processed_ok, hitems]
      rfl
    | error e =>
      obtain rfl : items₂ = st₁.1 := hserved
      refine ⟨⟨o'.next limit, o'.later limit⟩, hd.trans (delivered_next
        (d := ⟨o'.next limit, .error e⟩) hne rfl (List.suffix_refl _) ?_),
        (Outbox.next_of_owed limit hne).trans hnext, (Outbox.later_of_owed limit hne).trans hlater⟩
      rw [Delivery.processed_error]
      cases st₁.1 <;> rfl
  · intro r _ st' hr
    cases r with
    | ok left => exact hr
    | error e => exact hI st' hr

/-- What is owed goes out again until nothing is. -/
theorem always_resend_logged (hW : W.TakesFromFront c.table) (limit : Nat) (count : UInt32)
    (owed rest : List Write) (m : Memory) (st : Option Items × List Exchange) :
    (c.resend count owed).Always W.logged m st fun r _ st' =>
      EndsIn (fun _ st' => Delivered c.table limit ⟨owed, rest⟩ st ⟨[], rest⟩ st')
        (Undelivered c.table limit ⟨owed, rest⟩ st) r st' := by
  -- on the waits that the policy still allows
  induction hn : c.policy.maxRetries.toNat - count.toNat using Nat.strongRecOn
    generalizing count owed m st with
  | ind n ih =>
    rw [resend]
    split
    · rename_i h
      subst h
      exact .refl ..
    · rename_i hne
      have hnext : (Outbox.mk owed rest).next limit = owed := Outbox.next_of_owed limit hne
      have hlater : (Outbox.mk owed rest).later limit = rest := Outbox.later_of_owed limit hne
      refine always_backOff.bind ?_ ?_
      · rintro ⟨hlt⟩ m' st rfl
        have hsend := always_sendBatch_logged hW limit ⟨owed, rest⟩ m' (by rwa [hnext]) st
        rw [hnext, hlater] at hsend
        refine hsend.bind ?_ fun _ _ _ h => h
        intro left m' st₁ hd
        have hlt' := UInt32.lt_iff_toNat_lt.1 hlt
        have hsucc := Backoff.toNat_succ_of_lt hlt
        refine (ih _ ?_ (count + 1) left m' st₁ rfl).imp ?_
        · omega
        · intro r m'' st₂ h
          cases r with
          | ok _ => exact hd.trans h
          | error e => exact hd.undelivered h
      · rintro e m' _ rfl
        exact ⟨_, .refl .., by simp [Outbox.unsent, hne]⟩

/-- A slice is delivered, whatever is left out of it on the way, before the next one. -/
theorem always_writeSlice_logged (hW : W.TakesFromFront c.table) (limit : Nat)
    {rest : List Write} (hne : rest.take limit ≠ []) (m : Memory) (st : Option Items × List Exchange) :
    (c.writeSlice (rest.take limit)).Always W.logged m st fun r _ st' =>
      EndsIn (fun _ st' => Delivered c.table limit ⟨[], rest⟩ st ⟨[], rest.drop limit⟩ st')
        (Undelivered c.table limit ⟨[], rest⟩ st) r st' := by
  unfold writeSlice
  refine (always_sendBatch_logged hW limit ⟨[], rest⟩ m hne st).bind ?_
    fun _ _ _ h => h
  intro left m' st₁ hd
  exact (always_resend_logged hW limit 0 left (rest.drop limit) m' st₁).imp
    fun r m'' st₂ h => hd.endsIn h

theorem always_writeSlices_logged (hW : W.TakesFromFront c.table) (limit : Nat)
    (writes : List Write) (m : Memory) (st : Option Items × List Exchange) :
    ((slices limit writes).forM c.writeSlice).Always W.logged m st fun r _ st' =>
      EndsIn (fun _ st' => Delivered c.table (max limit 1) ⟨[], writes⟩ st ⟨[], []⟩ st')
        (Undelivered c.table (max limit 1) ⟨[], writes⟩ st) r st' := by
  fun_induction slices limit writes generalizing m st with
  | case1 => exact Delivered.refl ..
  | case2 writes hwrites ih =>
    rw [List.forM_eq_forM, List.forM_cons]
    have hne : writes.take (max limit 1) ≠ [] := by
      simp [hwrites]
    refine (always_writeSlice_logged hW _ hne m st).bind ?_ fun _ _ _ h => h
    intro _ m' st₁ hd
    exact (ih m' st₁).imp fun r m'' st₂ h => hd.endsIn h

/-- Writing in batches delivers all writes in their order, or it fails with some still to be
sent. -/
theorem always_writeAll_logged (hW : W.TakesFromFront c.table) (limit : Nat) (deletes : List Key)
    (puts : List Item) (m : Memory) (st : Option Items × List Exchange) :
    (c.writeAll limit deletes puts).Always W.logged m st fun r _ st' =>
      EndsIn
        (fun n st' => n = (deletes.map Write.delete ++ puts.map Write.put).length ∧
          Delivered c.table (max limit 1) ⟨[], deletes.map .delete ++ puts.map .put⟩ st ⟨[], []⟩ st')
        (Undelivered c.table (max limit 1) ⟨[], deletes.map .delete ++ puts.map .put⟩ st) r st' := by
  unfold writeAll
  refine (always_writeSlices_logged hW limit _ m st).bind ?_ fun _ _ _ h => h
  intro _ m' st₁ hd
  exact ⟨rfl, hd⟩

end Client

/-! ## Deliveries to the simulated service -/

/-- The service seen from the items of the table `t` by a client that sends batches for this table
only. -/
def batchWorld (t : String) : World (Option Items) where
  answers
    | .batchWrite name writes, st, answer, st' =>
      name = t → Served (.batchWrite name writes) st answer st'
    | _, _, _, _ => True

/-- The simulated service stays within that world, whatever is planned. -/
theorem Service.within_batchWorld (t : String) :
    Service.backend.Within (batchWorld t) (·.items? t) fun _ => True where
  answers r s _ := by
    cases r with
    | batchWrite name writes =>
      rintro rfl
      exact s.served_answer_batchWrite name writes
    | _ => trivial
  keeps _ _ _ := trivial

/-- **Writing in batches.** A client that removes the items of keys and stores items sends batches
to its table and nothing else. They take the writes from the front of the list, a slice after the
other, and what is left out of one goes out again before the next. The service has then done as many
writes as it has processed, from the front, and the client succeeds exactly when these are all, and
gives their number. -/
theorem Client.deliveries_writeAll (c : Client) (limit : Nat) (deletes : List Key)
    (puts : List Item) (m : Memory) (h : Host Service) :
    let writes := deletes.map Write.delete ++ puts.map Write.put
    let run := (c.writeAll limit deletes puts).run Service.backend m h
    ∃ ds o, (c.writeAll limit deletes puts).exchanges Service.backend m h =
        ds.map (Delivery.exchange c.table) ∧
      (Outbox.mk [] writes).Sends (max limit 1) ds o ∧
      run.host.state.items? c.table =
        (h.state.items? c.table).map (·.applyAll (writes.take (processed ds))) ∧
      ∀ n, run.outcome = .ok n ↔ processed ds = n ∧ n = writes.length := by
  intro writes run
  have hW : (batchWorld c.table).TakesFromFront c.table := fun _ _ _ _ h => h rfl
  have hrun := (c.always_writeAll_logged hW limit deletes puts m
    (h.state.items? c.table, [])).run_logged (Service.within_batchWorld c.table) trivial trivial
  obtain ⟨o, ⟨ds, hsends, hitems, hlog⟩, hout⟩ : ∃ o, Delivered c.table (max limit 1) ⟨[], writes⟩
      (h.state.items? c.table, []) o (run.host.state.items? c.table,
        [] ++ (c.writeAll limit deletes puts).exchanges Service.backend m h) ∧
      ∀ n, run.outcome = .ok n ↔ o.unsent = [] ∧ n = writes.length := by
    cases hr : run.outcome with
    | ok n =>
      rw [show ((c.writeAll limit deletes puts).run Service.backend m h).outcome = _ from hr] at hrun
      obtain ⟨rfl, hd⟩ := hrun
      exact ⟨_, hd, fun n => by simp [Outbox.unsent, writes, eq_comm]⟩
    | error e =>
      rw [show ((c.writeAll limit deletes puts).run Service.backend m h).outcome = _ from hr] at hrun
      obtain ⟨o, hd, hne⟩ := hrun
      exact ⟨o, hd, fun n => by simp [hne]⟩
  obtain ⟨hle, hunsent⟩ := hsends.unsent_eq
  refine ⟨ds, o, hlog, hsends, hitems, fun n => ?_⟩
  rw [hout, hunsent, List.drop_eq_nil_iff]
  have hwrites : (Outbox.mk [] writes).unsent = writes := rfl
  rw [hwrites] at hle ⊢
  omega

end TableTree
