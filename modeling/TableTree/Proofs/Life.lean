import TableTree.Proofs.Exchanges
import TableTree.Proofs.Undisturbed.Store

/-!
# The life of a store

A life is a sequence of events. In each event the store is asked for something, or closed. Before each
event the plan of the service and the clock are set anew, so whatever goes wrong is part of the event;
a store that has been closed stays closed.

Results:

* `Action`, `Action.perform`: what a store is asked for.
* `Event`, `Stage.act`, `Stage.live`: events, and what they lead to.
* `Action.always_perform`: an action does some of its writes, from the front.
* `Stage.holds_live`: an invariant of the items along a life.
-/

namespace TableTree

open Operation

/-- What a store is asked for. -/
inductive Action
  | use (u : Use)
  | updateCapacity (read write : Option Int64)
  | updateParameters (parameters : Std.ExtTreeMap String String)
  | diagnostics
  | close

namespace Action

/-- What an action gives. -/
@[reducible] def Result : Action → Type
  | .use u => u.Result
  | .diagnostics => Std.ExtTreeMap String String
  | _ => Unit

/-- An action on a store. A deletion of a subtree may take so many visits. Closing the store asks
nothing of its table. -/
def perform (s : Store) (visits : Nat) : (a : Action) → Operation a.Result
  | .use u => u.perform s visits
  | .updateCapacity read write => s.updateCapacity read write
  | .updateParameters parameters => s.updateParameters parameters
  | .diagnostics => s.diagnostics
  | .close => pure ()

end Action

/-- An action with the time of it and with what goes wrong during it. -/
structure Event where
  action : Action
  /-- the time of the day -/
  now : Int64
  /-- the number of requests to be throttled -/
  throttles : Nat := 0
  /-- the number of requests to fail -/
  faults : Nat := 0
  /-- how many writes are left out at the end of the batch with a given number -/
  leftovers : Std.ExtTreeMap Nat Nat := ∅
  /-- how many milliseconds after its beginning the store is closed, if it is -/
  closeAfter : Option Nat := none

/-- When an event closes the store, in milliseconds after its beginning. -/
def Event.closing (x : Event) : Option Nat :=
  match x.action with
  | .close => some 0
  | _ => x.closeAfter

namespace Stage

variable {s : Store} {stage : Stage}

/-- The service of an event. -/
def serviceOf (stage : Stage) (x : Event) : Service :=
  { stage.host.state with
    plan := { throttles := x.throttles, faults := x.faults, leftovers := x.leftovers } }

/-- The host of an event. -/
def hostFor (stage : Stage) (x : Event) : Host Service :=
  let h := { stage.host with state := stage.serviceOf x, now := x.now }
  x.closing.elim h h.closeAfter

/-- The operation of an event. A deletion of a subtree takes as many visits as it needs. -/
def operation (s : Store) (stage : Stage) (x : Event) : Operation x.action.Result :=
  x.action.perform s ((stage.serviceOf x).walkBound s.table)

/-- The run of an event. -/
def act (s : Store) (stage : Stage) (x : Event) : Operation.Run Service x.action.Result :=
  (operation s stage x).run Service.backend stage.memory (stage.hostFor x)

/-- The requests of an event with their answers. -/
def exchanges (s : Store) (stage : Stage) (x : Event) : List Exchange :=
  (operation s stage x).exchanges Service.backend stage.memory (stage.hostFor x)

/-- What an event leads to. -/
def next (s : Store) (stage : Stage) (x : Event) : Stage :=
  ⟨(act s stage x).memory, (act s stage x).host⟩

/-- What events lead to. -/
def live (s : Store) (stage : Stage) (events : List Event) : Stage := events.foldl (next s) stage

@[simp] theorem live_nil : live s stage [] = stage := rfl

@[simp] theorem live_cons (x : Event) (events : List Event) :
    live s stage (x :: events) = live s (next s stage x) events := rfl

@[simp] theorem state_hostFor (x : Event) : (stage.hostFor x).state = stage.serviceOf x := by
  unfold hostFor
  cases x.closing <;> rfl

@[simp] theorem now_hostFor (x : Event) : (stage.hostFor x).now = x.now := by
  unfold hostFor
  cases x.closing <;> rfl

theorem isCalm_serviceOf (x : Event) : (stage.serviceOf x).IsCalm := rfl

/-- What holds at first, and is kept by each event of a life, holds after the life. -/
theorem live_induction {P : Stage → Prop} {events : List Event} (hstage : P stage)
    (hstep : ∀ stage, P stage → ∀ x ∈ events, P (next s stage x)) : P (live s stage events) := by
  induction events generalizing stage with
  | nil => exact hstage
  | cons x events ih =>
    exact ih (hstep stage hstage x List.mem_cons_self) fun stage hstage y hy =>
      hstep stage hstage y (List.mem_cons_of_mem x hy)

end Stage

/-! ## Operations that only read -/

/-- Whether a request leaves the items of a table that is there alone, whatever is answered. -/
def Request.sparesItems : Request → Bool
  | .describeTable _ | .updateTable .. | .getItem .. | .query .. | .scan .. => true
  | _ => false

theorem Served.eq_of_sparesItems {r : Request} (hr : r.sparesItems = true) {items : Items}
    {answer : r.Answer} {st : Option Items} (h : Served r (some items) answer st) :
    st = some items := by
  cases r with
  | describeTable name => cases answer with | ok _ => exact h.1 | error _ => exact h.1
  | updateTable name capacity => cases answer with | ok _ => exact h | error _ => exact h
  | getItem name key => cases answer with | ok _ => exact h.1 | error _ => exact h
  | query name parent filter => cases answer with | ok _ => exact h.1 | error _ => exact h
  | scan name filter => cases answer with | ok _ => exact h.1 | error _ => exact h
  | _ => cases hr

/-- Every run leaves the items of the table `t` alone. -/
def Program.ReadOnly {α : Type} (t : String) (p : Program α) : Prop :=
  ∀ time items, p.Always (tableWorld t time) (some items) fun _ st => st = some items

/-- Every run leaves the items of the table `t` alone. -/
def Operation.ReadOnly {α : Type} (t : String) (x : Operation α) : Prop :=
  ∀ time items m, x.Always (tableWorld t time) m (some items) fun _ _ st => st = some items

section ReadOnly

variable {t : String} {α β : Type}

namespace Program

theorem readOnly_pure (a : α) : (pure a : Program α).ReadOnly t := fun _ _ => rfl

theorem readOnly_ask {r : Request} (hr : r.table = t) (hspares : r.sparesItems = true) :
    (ask r).ReadOnly t := by
  intro time items
  rw [always_ask]
  exact fun answer st h => (served_of_answers hr h).eq_of_sparesItems hspares

theorem ReadOnly.bind {p : Program α} {f : α → Program β} (hp : p.ReadOnly t)
    (hf : ∀ a, (f a).ReadOnly t) : (p >>= f).ReadOnly t := by
  intro time items
  rw [always_bind]
  refine (hp time items).imp ?_
  rintro a _ rfl
  exact hf a time items

end Program

namespace Operation

theorem readOnly_pure (a : α) : (pure a : Operation α).ReadOnly t := fun _ _ _ => rfl

theorem readOnly_throw (e : StoreError) : (throw e : Operation α).ReadOnly t := fun _ _ _ => rfl

theorem readOnly_ofResult (x : Except StoreError α) : (ofResult x).ReadOnly t := fun _ _ _ => rfl

theorem readOnly_get : (getThe Memory : Operation Memory).ReadOnly t := fun _ _ _ => rfl

theorem ReadOnly.bind {x : Operation α} {f : α → Operation β} (hx : x.ReadOnly t)
    (hf : ∀ a, (f a).ReadOnly t) : (x >>= f).ReadOnly t := by
  intro time items m
  refine (hx time items m).bind ?_ fun _ _ _ h => h
  rintro a m' _ rfl
  exact hf a time items m'

end Operation

namespace Client

variable {c : Client} {operation target : String} {attempt : Program (Except ServiceError α)}

theorem readOnly_once (h : attempt.ReadOnly t) : (c.once operation target attempt).ReadOnly t := by
  intro time items m
  have hattempt : attempt.Always (tableWorld t time) (some items) fun r st =>
      EndsIn (fun _ => (· = some items)) (· = some items) r st := by
    refine (h time items).imp ?_
    rintro (e | a) st hst <;> exact hst
  refine (always_once hattempt).imp ?_
  rintro (e | a) _ st hst <;> exact hst

theorem readOnly_retry {idempotent : Bool} (h : attempt.ReadOnly t) :
    (c.retry operation target idempotent attempt).ReadOnly t := by
  intro time items m
  have hattempt : ∀ st, st = some items → attempt.Always (tableWorld t time) st fun r st' =>
      EndsIn (fun _ => (· = some items)) (· = some items) r st' := by
    rintro _ rfl
    refine (h time items).imp ?_
    rintro (e | a) st hst <;> exact hst
  refine (always_retry hattempt m rfl).imp ?_
  rintro (e | a) _ st hst <;> exact hst

end Client

end ReadOnly

namespace Store

variable {s : Store}

theorem readOnly_bound : s.bound.ReadOnly s.table := fun _ items _ => always_bound items

theorem readOnly_readEntry (path : Path) (key : Key) (hint : Bool) :
    (s.readEntry path key hint).ReadOnly s.table := by
  refine (Program.readOnly_ask rfl rfl).bind fun found => ?_
  split
  · exact Program.readOnly_pure _
  split
  · exact Program.readOnly_pure _
  split
  · refine (Program.readOnly_ask rfl rfl).bind fun children => ?_
    split
    · exact Program.readOnly_pure _
    · exact Program.readOnly_pure _
  · exact Program.readOnly_pure _

theorem readOnly_get (path : Path) (hint : Bool) : (s.get path hint).ReadOnly s.table := by
  refine s.readOnly_bound.bind fun _ => ?_
  split
  · exact readOnly_pure _
  · exact (readOnly_ofResult _).bind fun key =>
      Client.readOnly_once (readOnly_readEntry path key hint)

theorem readOnly_listChildren (path : Path) : (s.listChildren path).ReadOnly s.table := by
  refine s.readOnly_bound.bind fun _ =>
    (Client.readOnly_once (Program.readOnly_ask rfl rfl)).bind fun items => ?_
  dsimp only
  split
  · exact (readOnly_get path false).bind fun _ => readOnly_pure _
  · exact readOnly_pure _

theorem readOnly_describe : s.describe.ReadOnly s.table :=
  Client.readOnly_once (Program.readOnly_ask rfl rfl)

theorem readOnly_awaitActive : s.settings.awaitActive.ReadOnly s.table := by
  intro time items m
  refine Settings.always_awaitActive.imp ?_
  rintro (e | _) _ st hst
  · exact hst
  · exact hst.1

theorem readOnly_updateCapacity (read write : Option Int64) :
    (s.updateCapacity read write).ReadOnly s.table := by
  refine s.readOnly_bound.bind fun _ => s.readOnly_describe.bind fun description => ?_
  dsimp only
  split
  · exact readOnly_throw _
  split
  · exact readOnly_pure _
  · refine Operation.ReadOnly.bind ?_ fun _ => readOnly_awaitActive
    exact Client.readOnly_retry (Program.readOnly_ask rfl rfl)

theorem readOnly_updateParameters (parameters : Std.ExtTreeMap String String) :
    (s.updateParameters parameters).ReadOnly s.table :=
  (readOnly_ofResult _).bind fun read => (readOnly_ofResult _).bind fun write =>
    readOnly_updateCapacity read write

theorem readOnly_diagnostics : s.diagnostics.ReadOnly s.table := by
  refine Operation.readOnly_get.bind fun m => ?_
  split
  · exact s.readOnly_describe.bind fun _ => (readOnly_pure _).bind fun _ =>
      Operation.readOnly_get.bind fun _ => readOnly_pure _
  · exact (readOnly_pure _).bind fun _ => Operation.readOnly_get.bind fun _ => readOnly_pure _

end Store

/-! ## What an action writes -/

namespace Use

/-- The call that a use makes, if it is one that changes the tree. -/
def call? : Use → Option Call
  | .put e => some (.put e)
  | .putAll es => some (.putAll es)
  | .putListing l => some (.putListing l)
  | .delete path => some (.delete path)
  | .forget path => some (.forget path)
  | .deleteSubtree path => some (.deleteSubtree path)
  | .move deletes creates => some (.move deletes creates)
  | .prune before => some (.prune before)
  | .prepare | .get .. | .listChildren _ | .destroy => none

/-- A call is a use of which only the effect is wanted. -/
theorem perform_of_call? {s : Store} {visits : Nat} {u : Use} {c : Call} (h : u.call? = some c) :
    c.perform s visits = u.perform s visits >>= fun _ => pure () := by
  cases u <;> cases h <;> first | rfl | exact (bind_pure_unit).symm

end Use

namespace Action

/-- The writes of an action. -/
def writes (owner : String) (items : Items) (now : Int64) : Action → List Write
  | .use u => u.call?.elim [] (·.writes owner items now)
  | _ => []

@[simp] theorem writes_use (owner : String) (items : Items) (now : Int64) (u : Use) :
    (Action.use u).writes owner items now = u.call?.elim [] (·.writes owner items now) := rfl

variable {s : Store}

/-- An action that makes no call that changes the tree only reads, unless it destroys the table. -/
theorem readOnly_perform {visits : Nat} {a : Action} (ha : a ≠ .use .destroy)
    (hcall : ∀ u, a = .use u → u.call? = none) : (a.perform s visits).ReadOnly s.table := by
  cases a with
  | updateCapacity read write => exact s.readOnly_updateCapacity read write
  | updateParameters parameters => exact s.readOnly_updateParameters parameters
  | diagnostics => exact s.readOnly_diagnostics
  | close => exact readOnly_pure ()
  | use u =>
    have hnone := hcall u rfl
    cases u with
    | prepare => exact s.readOnly_bound.bind fun _ => readOnly_pure ()
    | get path hint => exact s.readOnly_get path hint
    | listChildren path => exact s.readOnly_listChildren path
    | destroy => exact absurd rfl ha
    | _ => cases hnone

/-- An action does some of its writes, from the front, unless it destroys the table. -/
theorem always_perform {a : Action} (ha : a ≠ .use .destroy) (items : Items) (time : Int64)
    (m : Memory) :
    (a.perform s (items.size + 2)).Always (tableWorld s.table time) m (some items) fun _ _ st =>
      ∃ k, st = some (items.applyAll ((a.writes s.owner items time).take k)) := by
  by_cases hcall : ∃ u c, a = .use u ∧ u.call? = some c
  · obtain ⟨u, c, rfl, hc⟩ := hcall
    have hwrites : (Action.use u).writes s.owner items time = c.writes s.owner items time := by
      rw [writes_use, hc, Option.elim_some]
    have hcommits : (c.perform s (items.size + 2)).Always (tableWorld s.table time) m (some items)
        fun r _ st => Commits items (c.writes s.owner items time) r st := c.always_perform m
    rw [Use.perform_of_call? hc, always_bind] at hcommits
    rw [hwrites]
    refine hcommits.imp ?_
    rintro (e | r) m' st hst
    · exact Commits.exists_take hst
    · exact Commits.exists_take (r := (.ok () : Except StoreError Unit)) hst
  · have hnone : ∀ u, a = .use u → u.call? = none := by
      rintro u rfl
      exact Option.eq_none_iff_forall_ne_some.2 fun c hc => hcall ⟨u, c, rfl, hc⟩
    refine (readOnly_perform ha hnone time items m).imp ?_
    rintro _ _ _ rfl
    exact ⟨0, rfl⟩

end Action

namespace Stage

variable {s : Store} {stage : Stage}

/-- An event does some of the writes of its action, from the front. -/
theorem exists_items?_next {x : Event} (hx : x.action ≠ .use .destroy) {items : Items}
    (h : stage.items? s = some items) :
    ∃ k, (next s stage x).items? s =
      some (items.applyAll ((x.action.writes s.owner items x.now).take k)) := by
  have hitems : (stage.hostFor x).state.items? s.table = some items := by
    rw [state_hostFor]
    exact h
  have hvisits : (stage.serviceOf x).walkBound s.table = items.size + 2 := by
    rw [Service.walkBound, show (stage.serviceOf x).items? s.table = some items from h]
    rfl
  have hall := x.action.always_perform (s := s) hx items x.now stage.memory
  rw [← hvisits, ← hitems] at hall
  have hcalm : (stage.hostFor x).state.IsCalm := by
    rw [state_hostFor]
    exact isCalm_serviceOf x
  exact (hall.run (Service.within_tableWorld s.table x.now) hcalm (now_hostFor x)).1

/-- What holds of the items at first, and stays true whatever part of its writes each action of a
life does, holds after the life. -/
theorem holds_live {I : Items → Prop} {items : Items} {events : List Event}
    (hevents : ∀ x ∈ events, x.action ≠ .use .destroy) (hitems : stage.items? s = some items)
    (hI : I items)
    (hstep : ∀ x ∈ events, ∀ items, I items → ∀ k,
      I (items.applyAll ((x.action.writes s.owner items x.now).take k))) :
    ∃ items', (live s stage events).items? s = some items' ∧ I items' := by
  refine live_induction (P := fun stage => ∃ items, stage.items? s = some items ∧ I items)
    ⟨items, hitems, hI⟩ ?_
  rintro stage ⟨items, hitems, hI⟩ x hx
  obtain ⟨k, hk⟩ := exists_items?_next (hevents x hx) hitems
  exact ⟨_, hk, hstep x hx items hI k⟩

end Stage

end TableTree
