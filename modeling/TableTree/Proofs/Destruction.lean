import TableTree.Proofs.Granted
import TableTree.Proofs.Indifference
import TableTree.Proofs.VersionGate

/-!
# The end of a store

A store that has deleted its table is of no use any more, whoever makes the table again: it refuses
all that needs a table, and sends nothing. A store whose deletion was refused goes on as if it had not
tried. Both are told of a store on any backend, amid others that use the backend as they like.

Results:

* `Action.endsAtOnce_of_destroyed`: what a destroyed store answers.
* `Occasion`, `Scene.live`: what a store is asked for, amid others, and what it leads to.
* `Scene.Refuses`, `Scene.RepliesAs`: a store that refuses, and two that come to the same.
* `Store.destroyed_or_alike_of_destroy`: how a store is left when it was to be destroyed.
* `Store.lives_after_destroy`: the life of a store after that.
-/

namespace TableTree

open Operation

variable {σ α β : Type}

/-! ## Destroyed stores -/

namespace Store

variable {s : Store} {m : Memory}

theorem endsAtOnce_destroy (hm : m.destroyed = true) : s.destroy.EndsAtOnce m (.ok ()) := by
  show (if m.destroyed then pure () else _ : Operation Unit).start m = _
  rw [hm]
  rfl

end Store

namespace Action

variable {m : Memory}

/-- A destroyed store refuses what starts by binding. -/
theorem endsAtOnce_of_startsBound (s : Store) (visits : Nat) (hm : m.destroyed = true) {a : Action}
    (ha : a.startsBound = true) : (a.perform s visits).EndsAtOnce m (.error s.destroyedError) := by
  obtain ⟨f, hf⟩ := exists_perform_eq_bound_bind s visits ha
  rw [hf]
  exact (Store.endsAtOnce_bound hm).bind f

/-- Whatever a destroyed store is asked for, it does nothing. -/
theorem endsAtOnce_of_destroyed (s : Store) (visits : Nat) (hm : m.destroyed = true) (a : Action) :
    ∃ r, (a.perform s visits).EndsAtOnce m r := by
  cases hstarts : a.startsBound with
  | true => exact ⟨_, endsAtOnce_of_startsBound s visits hm hstarts⟩
  | false =>
    unfold startsBound at hstarts
    split at hstarts
    · exact ⟨_, Store.endsAtOnce_destroy hm⟩
    · rename_i parameters
      show ∃ r, (s.updateParameters parameters).EndsAtOnce m r
      obtain ⟨e, he⟩ | ⟨read, write, hcapacity⟩ := s.updateParameters_cases parameters
      · rw [he]
        exact ⟨.error e, rfl⟩
      · rw [hcapacity]
        exact ⟨_, (Store.endsAtOnce_bound hm).bind _⟩
    · have hunbound : Store.isBound m = false := by
        rw [Store.isBound, hm]
        exact Bool.and_false _
      obtain ⟨r, hr⟩ := endsAtOnce_of_not_needsTable s visits hstarts hunbound
      exact ⟨_, hr⟩

end Action

/-! ## A store amid others -/

/-- What a store is asked for, and what has happened since it was asked the last time. -/
structure Occasion (σ : Type) where
  action : Action
  /-- how many visits a deletion of a subtree may take -/
  visits : Nat := 0
  /-- what others have done to the backend -/
  meanwhile : σ → σ := id
  /-- the time of the day -/
  now : Int64
  /-- the milliseconds that have passed -/
  passed : Nat := 0
  /-- when the shutdown comes -/
  closesAt : Option Nat := none

/-- What a store remembers, and the host it runs on. -/
structure Scene (σ : Type) where
  memory : Memory
  host : Host σ

/-- What a run leads to. -/
def Operation.Run.scene (r : Operation.Run σ α) : Scene σ := ⟨r.memory, r.host⟩

namespace Scene

/-- The host of an occasion. -/
def hostOn (c : Scene σ) (x : Occasion σ) : Host σ :=
  { c.host with
    state := x.meanwhile c.host.state
    now := x.now
    elapsed := c.host.elapsed + x.passed
    closesAt := x.closesAt }

/-- The run of an occasion. -/
def act (b : Backend σ) (s : Store) (c : Scene σ) (x : Occasion σ) :
    Operation.Run σ x.action.Result :=
  (x.action.perform s x.visits).run b c.memory (c.hostOn x)

/-- The requests of an occasion with their answers. -/
def exchanges (b : Backend σ) (s : Store) (c : Scene σ) (x : Occasion σ) : List Exchange :=
  (x.action.perform s x.visits).exchanges b c.memory (c.hostOn x)

/-- What an occasion leads to. -/
def next (b : Backend σ) (s : Store) (c : Scene σ) (x : Occasion σ) : Scene σ := (c.act b s x).scene

/-- What occasions lead to. -/
def live (b : Backend σ) (s : Store) (c : Scene σ) (xs : List (Occasion σ)) : Scene σ :=
  xs.foldl (next b s) c

variable {b : Backend σ} {s : Store} {c c' : Scene σ}

/-! ### Refusing -/

/-- A store that sends nothing on an occasion and stays as it is. It refuses what needs a table, as
there is none, and has nothing to destroy. -/
structure Refuses (b : Backend σ) (s : Store) (c : Scene σ) (x : Occasion σ) : Prop where
  exchanges_eq : c.exchanges b s x = []
  next_eq : c.next b s x = ⟨c.memory, c.hostOn x⟩
  refused : x.action.startsBound = true → ∃ e, (c.act b s x).outcome = .error e ∧ e.kind = .notFound
  destroyed : x.action = .use .destroy → ∃ r, (c.act b s x).outcome = .ok r

theorem refuses_of_destroyed (hc : c.memory.destroyed = true) (x : Occasion σ) :
    c.Refuses b s x := by
  obtain ⟨r, hends⟩ := x.action.endsAtOnce_of_destroyed s x.visits hc
  refine ⟨hends.exchanges b _, ?_, fun hstarts => ?_, fun hdestroy => ?_⟩
  · rw [next, act, hends.run]
    rfl
  · have hrefused := Action.endsAtOnce_of_startsBound s x.visits hc hstarts
    refine ⟨s.destroyedError, ?_, rfl⟩
    rw [act, hrefused.run]
  · obtain ⟨action, visits, meanwhile, now, passed, closesAt⟩ := x
    obtain rfl : action = .use .destroy := hdestroy
    have hdone : ((Action.use .destroy).perform s visits).EndsAtOnce c.memory (.ok ()) :=
      Store.endsAtOnce_destroy hc
    refine ⟨(), ?_⟩
    rw [act, hdone.run]

/-- A destroyed store stays destroyed. -/
theorem destroyed_live (hc : c.memory.destroyed = true) (xs : List (Occasion σ)) :
    (c.live b s xs).memory.destroyed = true := by
  induction xs generalizing c with
  | nil => exact hc
  | cons x xs ih =>
    refine ih ?_
    rw [(refuses_of_destroyed hc x).next_eq]
    exact hc

/-! ### Coming to the same -/

/-- Scenes that differ in nothing but the count of throttled requests, and in the warnings that it
decides on. -/
structure Alike (c c' : Scene σ) : Prop where
  memory : c.memory.Alike c'.memory
  host : c.host.Similar c'.host

theorem Alike.hostOn (hc : c.Alike c') (x : Occasion σ) : (c.hostOn x).Similar (c'.hostOn x) := by
  unfold Scene.hostOn
  rw [hc.host.state_eq, hc.host.elapsed_eq]
  exact ⟨rfl, rfl, rfl, rfl, hc.host.timer_eq, hc.host.ties_eq, hc.host.notices_eq⟩

/-- On an occasion the second scene comes to the same as the first, but for the count of throttled
requests. -/
structure RepliesAs (b : Backend σ) (s : Store) (c c' : Scene σ) (x : Occasion σ) : Prop where
  outcome_eq : (c'.act b s x).outcome.map x.action.withoutCount =
    (c.act b s x).outcome.map x.action.withoutCount
  exchanges_eq : c'.exchanges b s x = c.exchanges b s x
  next_alike : (c.next b s x).Alike (c'.next b s x)

theorem Alike.repliesAs (hc : c.Alike c') (x : Occasion σ) : c.RepliesAs b s c' x := by
  obtain ⟨houtcome, hmemory, hhost, hexchanges⟩ :=
    x.action.alike_perform s x.visits b hc.memory (hc.hostOn x)
  exact ⟨houtcome, hexchanges, hmemory, hhost⟩

theorem Alike.live (hc : c.Alike c') (xs : List (Occasion σ)) :
    (c.live b s xs).Alike (c'.live b s xs) := by
  induction xs generalizing c c' with
  | nil => exact hc
  | cons x xs ih => exact ih (hc.repliesAs x).next_alike

end Scene

/-! ## Destroying -/

/-- Any answer may be given to any request. -/
def World.free : World Unit where
  answers _ _ _ _ := True

theorem Backend.within_free (b : Backend σ) :
    b.Within World.free (fun _ => ()) fun _ => True :=
  ⟨fun _ _ _ => trivial, fun _ _ _ => trivial⟩

/-- A request that is tried until it succeeds has been granted. -/
theorem Client.mem_exchanges_retry {c : Client} {operation target : String} {idempotent : Bool}
    {r : Request} {a : r.Reply} {b : Backend σ} {m : Memory} {h : Host σ}
    (hok : ((c.retry operation target idempotent (.ask r)).run b m h).outcome = .ok a) :
    (⟨r, .ok a⟩ : Exchange) ∈ (c.retry operation target idempotent (.ask r)).exchanges b m h := by
  have hall : (c.retry operation target idempotent (.ask r)).Always World.free.logged m ((), [])
      fun result _ st =>
        EndsIn (fun a st => (⟨r, .ok a⟩ : Exchange) ∈ st.2) (fun _ => True) result st := by
    refine always_retry (fun st _ => ?_) m trivial
    rw [Program.always_ask]
    rintro (e | a) ⟨_, _⟩ ⟨-, rfl⟩
    · trivial
    · exact List.mem_append_right _ List.mem_cons_self
  have hrun := hall.run_logged b.within_free (h := h) trivial trivial
  rw [hok] at hrun
  exact hrun

namespace Store

variable {s : Store} {m : Memory} {b : Backend σ} {h : Host σ}

/-- The request to delete the table. -/
def deleting (s : Store) : Operation Unit :=
  s.client.retry "delete" s.table true (.ask (.deleteTable s.table))

/-- What a store does after the request. -/
def settle (s : Store) (result : Except StoreError Unit) : Operation Unit := do
  match result with
  | .ok _ => s.settings.awaitDeleted
  | .error e =>
    if e.kind = .notFound then pure ()
    else
      modify fun m => { m with destroyed := false }
      throw e

theorem start_destroy (hm : m.destroyed = false) :
    s.destroy.start m = (outcome s.deleting >>= s.settle).start { m with destroyed := true } := by
  show (if m.destroyed then pure () else _ : Operation Unit).start m = _
  rw [hm]
  show (outcome s.deleting >>= _ : Operation Unit).start { m with destroyed := true } = _
  congr 2
  funext result
  cases result with
  | ok _ => rfl
  | error e => rfl

/-- A store that is not destroyed sends the request, counts as destroyed meanwhile, and settles what
has come of it. -/
theorem exists_run_destroy (b : Backend σ) (s : Store) (h : Host σ) (hm : m.destroyed = false) :
    ∃ r m₁ h₁, s.deleting.run b { m with destroyed := true } h = ⟨r, m₁, h₁⟩ ∧
      Memory.Alike { m with destroyed := true } m₁ ∧
      s.destroy.run b m h = (s.settle r).run b m₁ h₁ ∧
      s.destroy.exchanges b m h =
        s.deleting.exchanges b { m with destroyed := true } h ++
          (s.settle r).exchanges b m₁ h₁ := by
  rcases hdelete : s.deleting.run b { m with destroyed := true } h with ⟨r, m₁, h₁⟩
  have houtcome : (outcome s.deleting).run b { m with destroyed := true } h = ⟨.ok r, m₁, h₁⟩ := by
    rw [run_outcome, hdelete]
  refine ⟨r, m₁, h₁, rfl, Client.remembers_retry.alike hdelete, ?_, ?_⟩
  · rw [Operation.run, start_destroy hm]
    exact run_bind_of_ok houtcome
  · rw [Operation.exchanges, start_destroy hm, ← exchanges_outcome b s.deleting]
    exact exchanges_bind_of_ok houtcome s.settle

theorem run_settle_of_notFound {e : StoreError} (he : e.kind = .notFound) :
    (s.settle (.error e)).run b m h = ⟨.ok (), m, h⟩ := by
  show (if e.kind = .notFound then pure () else _ : Operation Unit).run b m h = _
  rw [if_pos he]
  rfl

theorem run_settle_of_ne {e : StoreError} (he : e.kind ≠ .notFound) :
    (s.settle (.error e)).run b m h = ⟨.error e, { m with destroyed := false }, h⟩ := by
  show (if e.kind = .notFound then pure () else _ : Operation Unit).run b m h = _
  rw [if_neg he]
  rfl

theorem remembers_settle_ok : (s.settle (.ok ())).Remembers := Settings.remembers_awaitDeletedFor _

/-- A store is destroyed if it succeeds in it, and if it fails without having been granted the request,
it is left as it was, but for the count of throttled requests. -/
theorem destroyed_or_alike_of_destroy (b : Backend σ) (s : Store) (m : Memory) (h : Host σ) :
    ((s.destroy.run b m h).outcome = .ok () → (s.destroy.run b m h).memory.destroyed = true) ∧
      (∀ e, (s.destroy.run b m h).outcome = .error e →
        (⟨.deleteTable s.table, .ok ()⟩ : Exchange) ∉ s.destroy.exchanges b m h →
        m.Alike (s.destroy.run b m h).memory) := by
  cases hm : m.destroyed with
  | true =>
    rw [(endsAtOnce_destroy hm).run]
    refine ⟨fun _ => hm, ?_⟩
    rintro e ⟨⟩
  | false =>
    obtain ⟨r, m₁, h₁, hdelete, hm₁, hrun, hsent⟩ := exists_run_destroy b s h hm
    rw [hrun, hsent]
    rcases r with e | ⟨⟩
    · by_cases hkind : e.kind = .notFound
      · rw [run_settle_of_notFound hkind]
        refine ⟨fun _ => hm₁.destroyed_eq, ?_⟩
        rintro e ⟨⟩
      · rw [run_settle_of_ne hkind]
        refine ⟨?_, fun _ _ _ => ⟨hm₁.binding_eq, hm.symm⟩⟩
        rintro ⟨⟩
    · -- the request was granted, so the store stays destroyed even if it fails to see the table go
      have hm₂ := remembers_settle_ok (s := s) b m₁ h₁
      refine ⟨fun _ => hm₂.destroyed_eq.trans hm₁.destroyed_eq, fun _ _ hrefused => ?_⟩
      have hgranted : (⟨.deleteTable s.table, .ok ()⟩ : Exchange) ∈
          s.deleting.exchanges b { m with destroyed := true } h :=
        Client.mem_exchanges_retry (congrArg (·.outcome) hdelete)
      exact absurd (List.mem_append_left _ hgranted) hrefused

/-- **The life of a store that was to be destroyed.** Take a store on any backend, in any state of its
memory, and let it be destroyed. Afterwards it is asked for whatever one likes, any number of times,
and in between others do to the backend what they like, such as making the table again.

If the store was destroyed, it refuses from then on all that needs a table as not found, takes being
destroyed again as done, and neither sends anything nor changes in any of this. If it failed to be
destroyed, and its request to delete the table was not granted, then it comes to the same on every
later occasion as the store does that was not to be destroyed, with the same requests, but for the
count of throttled requests. -/
theorem lives_after_destroy (b : Backend σ) (s : Store) (m : Memory) (h : Host σ)
    (xs : List (Occasion σ)) (x : Occasion σ) :
    ((s.destroy.run b m h).outcome = .ok () →
      ((s.destroy.run b m h).scene.live b s xs).Refuses b s x) ∧
    (∀ e, (s.destroy.run b m h).outcome = .error e →
      (⟨.deleteTable s.table, .ok ()⟩ : Exchange) ∉ s.destroy.exchanges b m h →
      (Scene.live b s ⟨m, (s.destroy.run b m h).host⟩ xs).RepliesAs b s
        ((s.destroy.run b m h).scene.live b s xs) x) := by
  obtain ⟨hdestroyed, hspared⟩ := destroyed_or_alike_of_destroy b s m h
  refine ⟨fun hok => ?_, fun e he hrefused => ?_⟩
  · exact Scene.refuses_of_destroyed (Scene.destroyed_live (hdestroyed hok) xs) x
  · have halike : Scene.Alike ⟨m, (s.destroy.run b m h).host⟩ (s.destroy.run b m h).scene :=
      ⟨hspared e he hrefused, .refl _⟩
    exact (halike.live xs).repliesAs x

end Store

/-! ## A sample -/

namespace Sample

/-- Another store makes the table that the store has destroyed. -/
def remadeTable : Occasion Service where
  action := .diagnostics
  meanwhile service :=
    (store.prepare.run Service.backend {} { state := service, now := 20 }).host.state
  now := 21

/-- The file is looked up. -/
def lookUp {σ : Type} : Occasion σ := { action := .use (.get file false), now := 22 }

/-- The file is stored. -/
def storeFile {σ : Type} : Occasion σ := { action := .use (.put (.file file 1 2 3 "o")), now := 21 }

/-- The table, with a deletion about to be throttled once and then refused for good. -/
def guardedHost : Host (Scripted Service) where
  state := Scripted.add ⟨stage.host.state, ∅⟩ "delete_table"
    [some (.throttled "slow"), some (.validation "locked")]
  now := 19

/-- The store deletes the table. -/
def destruction : Operation.Run Service Unit :=
  store.destroy.run Service.backend stage.memory stage.host

/-- The store is not allowed to. -/
def refusal : Operation.Run (Scripted Service) Unit :=
  store.destroy.run (Scripted.backend Service.backend) stage.memory guardedHost

/-- The store that has deleted the table refuses to look up a file in the one that was made again. The
other one, throttled once, has stored a file as if nothing had been, and looks it up. -/
theorem lives_after_destroy_meta :
    destruction.outcome = .ok () ∧
      ((destruction.scene.live Service.backend store [remadeTable]).hostOn lookUp).state.items?
        store.table ≠ none ∧
      (destruction.scene.live Service.backend store [remadeTable]).Refuses Service.backend store
        lookUp ∧
    (∃ e, refusal.outcome = .error e) ∧
      refusal.memory = { stage.memory with throttleCount := 1 } ∧
      (Scene.live (Scripted.backend Service.backend) store ⟨stage.memory, refusal.host⟩
        [storeFile]).RepliesAs (Scripted.backend Service.backend) store
        (refusal.scene.live (Scripted.backend Service.backend) store [storeFile]) lookUp := by
  have hok : destruction.outcome = .ok () := by decide +kernel
  obtain ⟨e, he⟩ : ∃ e, refusal.outcome = .error e := by
    have hfails : refusal.outcome.isOk = false := by decide +kernel
    cases hrun : refusal.outcome with
    | error e => exact ⟨e, rfl⟩
    | ok a =>
      rw [hrun] at hfails
      cases hfails
  have hnone : (store.destroy.exchanges (Scripted.backend Service.backend) stage.memory
      guardedHost).any (fun y => y.2.isOk) = false := by decide +kernel
  refine ⟨hok, by decide +kernel, ?_, ⟨e, he⟩, by decide +kernel, ?_⟩
  · exact (Store.lives_after_destroy Service.backend store stage.memory stage.host [remadeTable]
      lookUp).1 hok
  · refine (Store.lives_after_destroy (Scripted.backend Service.backend) store stage.memory
      guardedHost [storeFile] lookUp).2 e he fun hmem => ?_
    exact absurd rfl (List.any_eq_false.1 hnone _ hmem)

end Sample

end TableTree
