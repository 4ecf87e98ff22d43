import TableTree.Proofs.Exchanges
import TableTree.Proofs.Life

/-!
# What operations are composed of

All operations of a store are composed of few kinds of steps: programs that send requests, reports
and counts of what is throttled, and steps that look at what the store knows of its table or change
it. What holds of each kind of step, and is kept by one operation after another, holds of them all.

Results:

* `Program.Asks`: programs that send requests of one kind only.
* `Operation.Composed`: operations that are composed of steps.
* `Operation.Composed.always_logged`: they send no other requests.
* `Store.composed_get`, `Store.composed_put` and so on: the operations of a store.
* `Action.composed_perform`: all that a store is asked for.
-/

namespace TableTree

open Operation

variable {α β : Type} {allowed : Request → Prop}

/-! ## Programs -/

/-- Whatever it is answered, the program sends only requests that are allowed. -/
def Program.Asks (allowed : Request → Prop) : Program α → Prop
  | .done _ => True
  | .send r next => allowed r ∧ ∀ answer, (next answer).Asks allowed
  | .wait _ next => ∀ ending, (next ending).Asks allowed
  | .clock next => ∀ now, (next now).Asks allowed
  | .tell _ next => next.Asks allowed

/-- A request that is no batch. -/
def Request.IsSingle (r : Request) : Prop := r.isBatch = false

/-- A request about the table as a whole or about its marker. -/
def Request.IsAside : Request → Prop
  | .getItem _ key => key = Marker.key
  | .putItem _ item => item.key = Marker.key
  | .deleteItem .. | .query .. | .scan .. | .batchWrite .. => False
  | _ => True

theorem Request.IsAside.isSingle {r : Request} (h : r.IsAside) : r.IsSingle := by
  cases r with
  | batchWrite name writes => exact h.elim
  | _ => rfl

namespace Program

theorem asks_pure (a : α) : (pure a : Program α).Asks allowed := trivial

theorem asks_ask {r : Request} (hr : allowed r) : (ask r).Asks allowed := ⟨hr, fun _ => trivial⟩

theorem asks_single {r : Request} (hr : r.isBatch = false) : (ask r).Asks Request.IsSingle :=
  asks_ask hr

theorem asks_aside {r : Request} (hr : r.IsAside) : (ask r).Asks Request.IsAside := asks_ask hr

theorem asks_now : now.Asks allowed := fun _ => trivial

theorem asks_sleep (d : Duration) : (sleep d).Asks allowed := fun _ => trivial

theorem asks_notify (n : Notice) : (notify n).Asks allowed := trivial

theorem Asks.bind {p : Program α} {f : α → Program β} (hp : p.Asks allowed)
    (hf : ∀ a, (f a).Asks allowed) : (p >>= f).Asks allowed := by
  show (p.bind f).Asks allowed
  induction p with
  | done a => exact hf a
  | send r next ih => exact ⟨hp.1, fun answer => ih answer (hp.2 answer)⟩
  | wait d next ih => exact fun ending => ih ending (hp ending)
  | clock next ih => exact fun now => ih now (hp now)
  | tell n next ih => exact ih hp

theorem Asks.mono {allowed' : Request → Prop} {p : Program α} (hp : p.Asks allowed)
    (h : ∀ r, allowed r → allowed' r) : p.Asks allowed' := by
  induction p with
  | done a => trivial
  | send r next ih => exact ⟨h r hp.1, fun answer => ih answer (hp.2 answer)⟩
  | wait d next ih => exact fun ending => ih ending (hp ending)
  | clock next ih => exact fun now => ih now (hp now)
  | tell n next ih => exact ih hp

/-- Every run adds to the account requests that are allowed. -/
theorem Asks.always_logged {σ : Type} {W : World σ} {p : Program α} (hp : p.Asks allowed)
    (st : σ × List Exchange) :
    p.Always W.logged st fun _ st' => ∀ y ∈ st'.2, y ∈ st.2 ∨ allowed y.1 := by
  induction p generalizing st with
  | done a => exact fun y hy => .inl hy
  | send r next ih =>
    rintro answer ⟨_, _⟩ ⟨-, rfl⟩
    refine (ih answer (hp.2 answer) _).imp fun _ st' h y hy => ?_
    rcases h y hy with hy | hy
    · rcases List.mem_append.1 hy with hy | hy
      · exact .inl hy
      · rw [List.mem_singleton.1 hy]
        exact .inr hp.1
    · exact .inr hy
  | wait d next ih => exact fun ending => ih ending (hp ending) st
  | clock next ih => exact fun now _ => ih now (hp now) st
  | tell n next ih => exact ih hp st

end Program

/-! ## Operations -/

/-- An operation that is composed of steps that send only requests that are allowed. What a step does
beside its requests does not depend on how often the store was throttled, but for what it gives
notice of. -/
inductive Operation.Composed (allowed : Request → Prop) : {α : Type} → Operation α → Prop
  | value {α : Type} (x : Except StoreError α) : Composed allowed (ofResult x)
  | program {α : Type} {p : Program α} (hp : p.Asks allowed) : Composed allowed (perform p)
  | report (c : Client) (event : RetryEvent) : Composed allowed (c.reportRetry event)
  /-- counts a throttled request, whatever the count is -/
  | count {α : Type} {x : Operation α} (hx : Composed allowed x) :
    Composed allowed (Client.countThrottle >>= fun _ => x)
  /-- starts from what the store knows of its table -/
  | known {α : Type} {f : Memory → Operation α} (hf : ∀ m, Composed allowed (f m))
    (heq : ∀ m m', m.Alike m' → f m' = f m) : Composed allowed (getThe Memory >>= f)
  /-- changes what the store knows of its table -/
  | learned {f : Memory → Memory} (hf : ∀ m m', m.Alike m' → (f m).Alike (f m')) :
    Composed allowed (modify f : Operation Unit)
  | followed {α β : Type} {x : Operation α} {f : α → Operation β} (hx : Composed allowed x)
    (hf : ∀ a, Composed allowed (f a)) : Composed allowed (x >>= f)
  | settled {α : Type} {x : Operation α} (hx : Composed allowed x) : Composed allowed (outcome x)

namespace Operation

theorem composed_pure (a : α) : (pure a : Operation α).Composed allowed := .value (.ok a)

theorem composed_throw (e : StoreError) : (throw e : Operation α).Composed allowed :=
  .value (.error e)

theorem composed_now : (perform .now).Composed allowed := .program Program.asks_now

namespace Composed

theorem bind {x : Operation α} {f : α → Operation β} (hx : x.Composed allowed)
    (hf : ∀ a, (f a).Composed allowed) : (x >>= f).Composed allowed :=
  .followed hx hf

theorem mono {allowed' : Request → Prop} {x : Operation α} (hx : x.Composed allowed)
    (h : ∀ r, allowed r → allowed' r) : x.Composed allowed' := by
  induction hx with
  | value x => exact .value x
  | program hp => exact .program (hp.mono h)
  | report c event => exact .report c event
  | count _ ih => exact .count ih
  | known _ heq ih => exact .known ih heq
  | learned hf => exact .learned hf
  | followed _ _ ihx ihf => exact .followed ihx ihf
  | settled _ ih => exact .settled ih

/-- What sends only some requests sends whatever it sends. -/
theorem any {x : Operation α} (hx : x.Composed allowed) : x.Composed fun _ => True :=
  hx.mono fun _ _ => trivial

/-- Every run adds to the account requests that are allowed. -/
theorem always_logged {σ : Type} {W : World σ} {x : Operation α} (hx : x.Composed allowed)
    (m : Memory) (st : σ × List Exchange) :
    x.Always W.logged m st fun _ _ st' => ∀ y ∈ st'.2, y ∈ st.2 ∨ allowed y.1 := by
  induction hx generalizing m st with
  | value x => exact fun y hy => .inl hy
  | program hp => exact always_perform.2 (hp.always_logged st)
  | report c event =>
    refine (c.always_reportRetry event).imp ?_
    rintro _ _ _ rfl y hy
    exact .inl hy
  | count _ ih => exact ih _ st
  | known _ _ ih => exact ih m m st
  | learned _ => exact fun y hy => .inl hy
  | followed _ _ ihx ihf =>
    refine (ihx m st).bind (fun a m' st₁ h₁ => ?_) fun _ _ _ h => h
    refine (ihf a m' st₁).imp fun _ _ st₂ h₂ y hy => ?_
    rcases h₂ y hy with hy | hy
    · exact h₁ y hy
    · exact .inr hy
  | settled _ ih => exact always_lift.2 (ih m st)

/-- What holds of all exchanges in the account, and of those that are allowed, holds of all after
every run. -/
theorem always_forall {σ : Type} {W : World σ} {x : Operation α} (hx : x.Composed allowed)
    {I : Exchange → Prop} (hI : ∀ y : Exchange, allowed y.1 → I y) (m : Memory)
    {st : σ × List Exchange} (hst : ∀ y ∈ st.2, I y) :
    x.Always W.logged m st fun _ _ st' => ∀ y ∈ st'.2, I y := by
  refine (hx.always_logged m st).imp fun _ _ st' h y hy => ?_
  rcases h y hy with hy | hy
  · exact hst y hy
  · exact hI y hy

end Composed

theorem composed_forM {f : α → Operation Unit} (hf : ∀ a, (f a).Composed allowed) (xs : List α) :
    (xs.forM f).Composed allowed := by
  induction xs with
  | nil => exact composed_pure ()
  | cons x xs ih =>
    rw [List.forM_eq_forM, List.forM_cons]
    exact (hf x).bind fun _ => ih

end Operation

/-! ## Calling the service -/

namespace Client

variable {c : Client} {operation target : String} {idempotent : Bool}
  {attempt : Program (Except ServiceError α)}

theorem composed_once (h : attempt.Asks allowed) :
    (c.once operation target attempt).Composed allowed := by
  refine (Composed.program h).bind fun result => ?_
  split
  · exact composed_pure _
  · exact composed_throw _

theorem composed_pause (d : Duration) : (c.pause operation target d).Composed allowed := by
  refine (Composed.program (Program.asks_sleep d)).bind fun ending => ?_
  split
  · exact composed_pure ()
  · exact (Composed.program (Program.asks_notify _)).bind fun _ => composed_throw _

theorem composed_retryFrom (h : attempt.Asks allowed) (backoff : Backoff) :
    (c.retryFrom operation target idempotent attempt backoff).Composed allowed := by
  -- on the waits that are left
  induction hn : backoff.remaining using Nat.strongRecOn generalizing backoff with
  | ind n ih =>
    rw [retryFrom]
    refine (Composed.program h).bind fun result => ?_
    split
    · exact composed_pure _
    · dsimp only
      split
      · split
        · exact composed_throw _
        · rename_i duration backoff' hnext
          refine (Composed.report c _).bind fun _ => (composed_pause duration).bind fun _ => ?_
          exact ih _ (hn ▸ Backoff.remaining_lt_of_next? hnext) backoff' rfl
      · exact composed_throw _

theorem composed_retry (h : attempt.Asks allowed) :
    (c.retry operation target idempotent attempt).Composed allowed :=
  composed_retryFrom h _

theorem composed_backOff (count : UInt32) (left : Nat) :
    (c.backOff operation target count left).Composed allowed := by
  unfold backOff
  refine .count ?_
  split
  · exact composed_throw _
  · exact (composed_pause _).bind fun _ => composed_pure _

theorem composed_sendBatch (writes : List Write) :
    (c.sendBatch writes).Composed fun r => r.isBatch = true :=
  composed_retry (Program.asks_ask rfl)

theorem composed_resend (count : UInt32) (left : List Write) :
    (c.resend count left).Composed fun r => r.isBatch = true := by
  -- on the waits that the policy still allows
  induction hn : c.policy.maxRetries.toNat - count.toNat using Nat.strongRecOn
    generalizing count left with
  | ind n ih =>
    rw [resend]
    split
    · exact composed_pure ()
    · refine (composed_backOff count left.length).bind fun hlt =>
        (composed_sendBatch left).bind fun left' => ?_
      have hlt' := UInt32.lt_iff_toNat_lt.1 hlt.down
      have hsucc := Backoff.toNat_succ_of_lt hlt.down
      exact ih _ (by omega) _ _ rfl

theorem composed_writeAll (limit : Nat) (deletes : List Key) (puts : List Item) :
    (c.writeAll limit deletes puts).Composed fun r => r.isBatch = true :=
  (composed_forM (fun writes => (composed_sendBatch writes).bind fun left =>
    composed_resend 0 left) _).bind fun _ => composed_pure _

end Client

/-! ## Binding -/

namespace Settings

variable {s : Settings}

theorem composed_describe : s.describe.Composed Request.IsAside :=
  Client.composed_retry (Program.asks_aside (by trivial))

theorem composed_awaitActiveFor (looks : Nat) :
    (s.awaitActiveFor looks).Composed Request.IsAside := by
  induction looks with
  | zero => exact composed_throw _
  | succ looks ih =>
    refine s.composed_describe.bind fun description => ?_
    split
    · exact composed_pure ()
    · exact composed_throw _
    · exact (Client.composed_pause _).bind fun _ => ih

theorem composed_awaitDeletedFor (looks : Nat) :
    (s.awaitDeletedFor looks).Composed Request.IsAside := by
  induction looks with
  | zero => exact composed_throw _
  | succ looks ih =>
    refine (Composed.settled composed_describe).bind fun result => ?_
    split
    · exact (Client.composed_pause _).bind fun _ => ih
    · split
      · exact composed_pure ()
      · exact composed_throw _

theorem composed_awaitMarker (backoff : Backoff) :
    (s.awaitMarker backoff).Composed Request.IsAside := by
  -- on the waits that are left
  induction hn : backoff.remaining using Nat.strongRecOn generalizing backoff with
  | ind n ih =>
    rw [awaitMarker]
    refine (Client.composed_retry (Program.asks_aside (by rfl))).bind fun marker => ?_
    split
    · exact composed_pure _
    · split
      · exact composed_pure _
      · rename_i duration backoff' hnext
        refine (Client.composed_pause _).bind fun _ => ?_
        exact ih _ (hn ▸ Backoff.remaining_lt_of_next? hnext) backoff' rfl

theorem composed_checkMarker : s.checkMarker.Composed Request.IsAside :=
  (composed_awaitMarker _).bind fun _ => (Composed.value _).bind fun _ => composed_pure _

theorem composed_finishTable : s.finishTable.Composed Request.IsAside :=
  (composed_awaitActiveFor _).bind fun _ => composed_now.bind fun _ =>
    (Client.composed_retry (Program.asks_aside (by rfl))).bind fun _ => composed_pure _

theorem composed_makeTable : s.makeTable.Composed Request.IsAside := by
  rw [makeTable_eq]
  refine (Composed.program (Program.asks_aside (by trivial))).bind fun answer => ?_
  split
  · exact composed_finishTable
  · exact composed_finishTable
  · exact composed_throw _

theorem composed_bindTo (description : TableDescription) :
    (s.bindTo description).Composed Request.IsAside := by
  unfold bindTo
  split
  · exact (composed_awaitActiveFor _).bind fun _ => composed_checkMarker
  · exact composed_throw _
  · exact composed_throw _
  · exact composed_checkMarker
  · exact composed_checkMarker

theorem composed_bind : s.bind.Composed Request.IsAside := by
  refine (Composed.program (Program.asks_aside (by trivial))).bind fun answer => ?_
  split
  · exact composed_bindTo _
  · split
    · exact composed_makeTable
    · exact composed_throw _
  · exact composed_throw _

end Settings

/-! ## The operations of a store -/

namespace Store

variable {s : Store}

theorem composed_bound_aside : s.bound.Composed Request.IsAside := by
  refine .known (fun m => ?_) fun m m' hm => ?_
  · split
    · exact composed_throw _
    · split
      · exact composed_pure _
      · refine s.settings.composed_bind.bind fun _ => ?_
        refine (Composed.learned ?_).bind fun _ => composed_pure _
        exact fun _ _ hm => ⟨rfl, hm.destroyed_eq⟩
  · rw [hm.binding_eq, hm.destroyed_eq]

theorem composed_bound : s.bound.Composed Request.IsSingle :=
  s.composed_bound_aside.mono fun _ => Request.IsAside.isSingle

theorem composed_prepare : s.prepare.Composed Request.IsSingle :=
  s.composed_bound.bind fun _ => composed_pure ()

/-! ### Reading -/

theorem asks_readEntry (path : Path) (key : Key) (hint : Bool) :
    (s.readEntry path key hint).Asks Request.IsSingle := by
  refine (Program.asks_single rfl).bind fun found => ?_
  split
  · exact Program.asks_pure _
  split
  · exact Program.asks_pure _
  split
  · refine (Program.asks_single rfl).bind fun children => ?_
    split
    · exact Program.asks_pure _
    · exact Program.asks_pure _
  · exact Program.asks_pure _

theorem composed_get (path : Path) (hint : Bool) :
    (s.get path hint).Composed Request.IsSingle := by
  refine s.composed_bound.bind fun _ => ?_
  split
  · exact composed_pure _
  · exact (Composed.value _).bind fun key => Client.composed_once (asks_readEntry path key hint)

theorem composed_listChildren (path : Path) :
    (s.listChildren path).Composed Request.IsSingle := by
  refine s.composed_bound.bind fun _ =>
    (Client.composed_once (Program.asks_single rfl)).bind fun items => ?_
  dsimp only
  split
  · exact (composed_get path false).bind fun _ => composed_pure _
  · exact composed_pure _

theorem composed_collect? (visits : Nat) (w : Walk) :
    (w.collect? s visits).Composed Request.IsSingle := by
  induction visits generalizing w with
  | zero => exact composed_pure _
  | succ visits ih =>
    obtain ⟨_ | ⟨e, queue⟩⟩ := w
    · rw [Walk.collect?_nil]
      exact composed_pure _
    · rw [Walk.collect?_cons]
      refine .bind ?_ fun _ => (ih _).bind fun _ => composed_pure _
      split
      · exact composed_listChildren _
      · exact composed_pure _

theorem asks_standInsUntilLive (ancestors : List (Path × Key)) :
    (Entry.standInsUntilLive s.table s.owner ancestors).Asks Request.IsSingle := by
  induction ancestors with
  | nil => exact Program.asks_pure _
  | cons ancestor further ih =>
    unfold Entry.standInsUntilLive
    refine (Program.asks_single rfl).bind fun found => ?_
    split
    · exact Program.asks_pure _
    split
    · exact Program.asks_pure _
    refine ih.bind fun above => ?_
    split
    · exact Program.asks_pure _
    · exact Program.asks_pure _

theorem composed_withMissingAncestors (e : Entry) :
    (s.withMissingAncestors e).Composed Request.IsSingle := by
  refine (Composed.value _).bind fun ancestors => Client.composed_retry ?_
  refine (asks_standInsUntilLive ancestors).bind fun above => ?_
  split
  · exact Program.asks_pure _
  · exact Program.asks_pure _

/-! ### Changing the tree -/

theorem composed_delete (path : Path) : (s.delete path).Composed Request.IsSingle := by
  refine s.composed_bound.bind fun _ => ?_
  split
  · exact composed_pure ()
  · exact composed_now.bind fun _ => (Composed.value _).bind fun _ =>
      Client.composed_retry (Program.asks_single rfl)

theorem composed_forget (path : Path) : (s.forget path).Composed Request.IsSingle := by
  refine s.composed_bound.bind fun _ => ?_
  split
  · exact composed_pure ()
  · exact (Composed.value _).bind fun _ => Client.composed_retry (Program.asks_single rfl)

theorem composed_writeEntries (deletes : List Key) (entries : List Entry) :
    (s.writeEntries deletes entries).Composed fun r => r.isBatch = true :=
  (Composed.value _).bind fun _ => Client.composed_writeAll ..

theorem composed_put (e : Entry) : (s.put e).Composed fun _ => True :=
  s.composed_bound.any.bind fun _ => (composed_withMissingAncestors e).any.bind fun _ =>
    (composed_writeEntries ..).any.bind fun _ => composed_pure ()

theorem composed_putAll (es : List Entry) : (s.putAll es).Composed fun _ => True :=
  s.composed_bound.any.bind fun _ => (composed_writeEntries ..).any.bind fun _ => composed_pure ()

theorem composed_putListing (l : Listing) : (s.putListing l).Composed fun _ => True :=
  s.composed_bound.any.bind fun _ => (composed_withMissingAncestors _).any.bind fun _ =>
    (composed_writeEntries ..).any.bind fun _ => composed_pure ()

theorem composed_deleteSubtree? (visits : Nat) (path : Path) :
    (s.deleteSubtree? visits path).Composed fun _ => True := by
  refine s.composed_bound.any.bind fun _ => (composed_get path false).any.bind fun root => ?_
  split
  · exact composed_pure _
  · refine (composed_collect? visits _).any.bind fun subtree => ?_
    split
    · exact composed_pure _
    · exact composed_now.bind fun _ => (composed_writeEntries ..).any.bind fun _ => composed_pure _

theorem composed_move (deletes : Option (List Path)) (creates : Option (List Entry)) :
    (s.move deletes creates).Composed fun _ => True := by
  unfold move
  split
  · exact composed_pure ()
  · refine s.composed_bound.any.bind fun _ => ?_
    dsimp only
    split
    · exact (composed_writeEntries ..).any.bind fun _ => composed_pure ()
    · exact composed_now.bind fun _ => (composed_pure _).bind fun _ =>
        (composed_writeEntries ..).any.bind fun _ => composed_pure ()

theorem composed_removeSlices (parts : List (List Key)) :
    (s.removeSlices parts).Composed fun _ => True := by
  induction parts with
  | nil => exact composed_pure 0
  | cons keys further ih =>
    exact (Client.composed_pause _).bind fun _ => (composed_writeEntries ..).any.bind fun _ =>
      ih.bind fun _ => composed_pure _

theorem composed_prune (before : Int64) : (s.prune before).Composed fun _ => True :=
  s.composed_bound.any.bind fun _ => (Client.composed_retry (Program.asks_ask trivial)).bind
    fun _ => composed_removeSlices _

/-! ### Looking after the table -/

theorem composed_describe : s.describe.Composed Request.IsSingle :=
  Client.composed_once (Program.asks_single rfl)

theorem composed_updateCapacity (read write : Option Int64) :
    (s.updateCapacity read write).Composed Request.IsSingle := by
  refine s.composed_bound.bind fun _ => s.composed_describe.bind fun description => ?_
  dsimp only
  split
  · exact composed_throw _
  split
  · exact composed_pure ()
  · exact (Client.composed_retry (Program.asks_single rfl)).bind fun _ =>
      (Settings.composed_awaitActiveFor _).mono fun _ => Request.IsAside.isSingle

theorem composed_updateParameters (parameters : Std.ExtTreeMap String String) :
    (s.updateParameters parameters).Composed Request.IsSingle :=
  (Composed.value _).bind fun read => (Composed.value _).bind fun write =>
    composed_updateCapacity read write

/-- The store counts as destroyed or not, whatever it was before. -/
theorem composed_setDestroyed (destroyed : Bool) :
    (modify fun m => { m with destroyed := destroyed } : Operation Unit).Composed allowed :=
  .learned fun _ _ hm => ⟨hm.binding_eq, rfl⟩

theorem composed_destroy : s.destroy.Composed Request.IsSingle := by
  refine .known (fun m => ?_) fun m m' hm => ?_
  · split
    · exact composed_pure ()
    · refine (composed_setDestroyed true).bind fun _ => ?_
      refine (Composed.settled (Client.composed_retry (Program.asks_single rfl))).bind
        fun result => ?_
      split
      · exact (Settings.composed_awaitDeletedFor _).mono fun _ => Request.IsAside.isSingle
      · split
        · exact composed_pure ()
        · exact (composed_setDestroyed false).bind fun _ => composed_throw _
  · rw [hm.destroyed_eq]

/-- What is known about the table. -/
def facts (s : Store) : Operation (List (String × String)) := do
  if isBound (← getThe Memory) then do pure (tableFacts (← s.describe)) else pure unboundFacts

theorem composed_facts : s.facts.Composed Request.IsSingle := by
  refine .known (fun m => ?_) fun m m' hm => ?_
  · split
    · exact s.composed_describe.bind fun _ => composed_pure _
    · exact composed_pure _
  · rw [isBound, isBound, hm.binding_eq, hm.destroyed_eq]

/-- What is known about store and table: the facts about the table, and about the store, which has
been throttled so often. -/
def diagnosis (s : Store) (facts : List (String × String)) (throttleEvents : Nat) :
    Std.ExtTreeMap String String :=
  .ofList (facts ++
    [("description", "Table-backed metadata store"), ("region", s.region),
      ("retryPolicy", s.client.policy.text), ("throttleEvents", toString throttleEvents)])

/-- Only the last of the diagnostics depends on how often the store was throttled. -/
theorem diagnostics_eq :
    s.diagnostics = s.facts >>= fun facts => getThe Memory >>= fun m =>
      pure (s.diagnosis facts m.throttleEvents) := by
  unfold diagnostics facts
  rw [bind_assoc]
  congr 1
  funext m
  cases isBound m with
  | true => exact (bind_assoc ..).symm
  | false => rfl

end Store

/-! ## All that a store is asked for -/

theorem Use.composed_perform (s : Store) (visits : Nat) (u : Use) :
    (u.perform s visits).Composed fun _ => True := by
  cases u with
  | prepare => exact s.composed_prepare.any
  | get path hint => exact (s.composed_get path hint).any
  | listChildren path => exact (s.composed_listChildren path).any
  | put e => exact s.composed_put e
  | putAll es => exact s.composed_putAll es
  | putListing l => exact s.composed_putListing l
  | delete path => exact (s.composed_delete path).any
  | forget path => exact (s.composed_forget path).any
  | deleteSubtree path => exact s.composed_deleteSubtree? visits path
  | move deletes creates => exact s.composed_move deletes creates
  | prune before => exact s.composed_prune before
  | destroy => exact s.composed_destroy.any

/-- All that a store is asked for but its diagnostics, which tell how often it was throttled. -/
theorem Action.composed_perform (s : Store) (visits : Nat) {a : Action} (ha : a ≠ .diagnostics) :
    (a.perform s visits).Composed fun _ => True := by
  cases a with
  | use u => exact u.composed_perform s visits
  | updateCapacity read write => exact (s.composed_updateCapacity read write).any
  | updateParameters parameters => exact (s.composed_updateParameters parameters).any
  | diagnostics => exact absurd rfl ha
  | close => exact composed_pure ()

end TableTree
