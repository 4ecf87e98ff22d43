import Mathlib.Logic.Relation
import TableTree.Proofs.Calls

/-!
# Several stores at one table

Stores that use one table at the same time take turns: at each moment one of them goes one step
further, by a request with the answer to it, a wait, a look at the clock, or a notice. What goes wrong
with a request is left open each time, so a batch may be taken in part, and what was left out may be
sent again, with steps of other stores in between.

Results:

* `Program.Step`: one step of a program.
* `Worker`, `Worker.Step`: a store with a list of calls to make, and one step of it.
* `Crew`, `Crew.Step`: several workers at a service, and a step of one of them.
* `Crew.turns`, `Crew.steps_turns`: the steps that a list of turns makes.
-/

namespace TableTree

variable {σ α : Type}

/-- One step of a program in a world. -/
inductive Program.Step (W : World σ) : Program α → σ → Program α → σ → Prop
  | send {r : Request} {next : r.Answer → Program α} {st st' : σ} {answer : r.Answer}
      (h : W.answers r st answer st') : Step W (.send r next) st (next answer) st'
  | wait {d : Duration} {next : WaitEnd → Program α} {st : σ} (ending : WaitEnd) :
      Step W (.wait d next) st (next ending) st
  | clock {next : Int64 → Program α} {st : σ} {now : Int64} (h : W.shows now) :
      Step W (.clock next) st (next now) st
  | tell {n : Notice} {next : Program α} {st : σ} : Step W (.tell n next) st next st

/-- The service as several stores meet it. Each request may be throttled, fail, or be cut short as it
happens. -/
def Service.world : World Service where
  answers r s answer s' :=
    ∃ plan : Plan, plan.lateWrites = [] ∧ { s with plan := plan }.answer r = (answer, s')

/-! ## Workers -/

/-- A store that makes calls, one after the other. -/
structure Worker where
  store : Store
  /-- what the store remembers between its calls -/
  memory : Memory
  /-- the call that is being made, with what is left to do for it -/
  current : Option (Call × Program (Except StoreError Unit × Memory)) := none
  /-- the calls to be made after that -/
  later : List Call
  /-- the calls that have returned -/
  finished : List (Call × Except StoreError Unit) := []

namespace Worker

/-- One step of a worker. A call is begun when the one before has returned; the deletion of a subtree
may take as many visits as it needs. -/
inductive Step : Worker → Service → Worker → Service → Prop
  | start {w : Worker} {s : Service} {c : Call} {later : List Call} {visits : Nat}
      (hcurrent : w.current = none) (hlater : w.later = c :: later)
      (hvisits : s.walkBound w.store.table ≤ visits) :
      Step w s
        { w with current := some (c, (c.perform w.store visits).start w.memory), later := later } s
  | go {w : Worker} {s s' : Service} {c : Call} {p p' : Program (Except StoreError Unit × Memory)}
      (hcurrent : w.current = some (c, p)) (h : p.Step Service.world s p' s') :
      Step w s { w with current := some (c, p') } s'
  | finish {w : Worker} {s : Service} {c : Call} {r : Except StoreError Unit} {m : Memory}
      (hcurrent : w.current = some (c, .done (r, m))) :
      Step w s { w with memory := m, current := none, finished := w.finished ++ [(c, r)] } s

end Worker

/-- Workers at a service. -/
structure Crew where
  service : Service
  workers : List Worker

namespace Crew

/-- One step of one of the workers. -/
inductive Step : Crew → Crew → Prop
  | of {crew : Crew} {w w' : Worker} {s' : Service} {i : Nat} (hw : crew.workers[i]? = some w)
      (h : w.Step crew.service w' s') : Step crew ⟨s', crew.workers.set i w'⟩

/-- Any number of steps, of the workers in any order. -/
abbrev Steps : Crew → Crew → Prop := Relation.ReflTransGen Step

/-- All workers use the table `t` and are about to make their first call. -/
structure Begins (crew : Crew) (t : String) : Prop where
  table_eq : ∀ w ∈ crew.workers, w.store.table = t
  current : ∀ w ∈ crew.workers, w.current = none
  finished : ∀ w ∈ crew.workers, w.finished = []

end Crew

/-! ## Turns -/

/-- A step that a worker of a crew is given. -/
structure Turn where
  /-- the number of the worker -/
  worker : Nat
  /-- how many writes are left out of the batch, if one is sent -/
  leftover : Nat := 0

/-- The service with a plan that leaves writes out of the next batch. -/
def Service.cutShort (s : Service) (leftover : Nat) : Service :=
  { s with plan := { leftovers := .ofList [(s.counts.batchWrite, leftover)] } }

/-- The worker and the service after a turn of the worker. Its waits are not interrupted. -/
def Worker.turn (w : Worker) (s : Service) (leftover : Nat) : Worker × Service :=
  match w.current with
  | none =>
    match w.later with
    | [] => (w, s)
    | c :: later =>
      let p := (c.perform w.store (s.walkBound w.store.table)).start w.memory
      ({ w with current := some (c, p), later := later }, s)
  | some (c, .send r next) =>
    let (answer, s') := (s.cutShort leftover).answer r
    ({ w with current := some (c, next answer) }, s')
  | some (c, .wait _ next) => ({ w with current := some (c, next .elapsed) }, s)
  | some (c, .clock next) => ({ w with current := some (c, next 0) }, s)
  | some (c, .tell _ next) => ({ w with current := some (c, next) }, s)
  | some (c, .done (r, m)) =>
    ({ w with memory := m, current := none, finished := w.finished ++ [(c, r)] }, s)

namespace Crew

/-- The crew after a turn. -/
def turn (crew : Crew) (x : Turn) : Crew :=
  match crew.workers[x.worker]? with
  | none => crew
  | some w =>
    let (w', s') := w.turn crew.service x.leftover
    ⟨s', crew.workers.set x.worker w'⟩

/-- The crew after turns. -/
def turns (crew : Crew) (xs : List Turn) : Crew := xs.foldl turn crew

end Crew

/-- A turn is a step, unless nothing is left to do. -/
theorem Worker.step_turn (w : Worker) (s : Service) (leftover : Nat) :
    w.turn s leftover = (w, s) ∨ w.Step s (w.turn s leftover).1 (w.turn s leftover).2 := by
  unfold turn
  split
  · rename_i hcurrent
    split
    · exact .inl rfl
    · rename_i hlater
      exact .inr (.start hcurrent hlater (Nat.le_refl _))
  · rename_i hcurrent
    exact .inr (.go hcurrent (.send ⟨_, rfl, rfl⟩))
  · rename_i hcurrent
    exact .inr (.go hcurrent (.wait _))
  · rename_i hcurrent
    exact .inr (.go hcurrent (.clock trivial))
  · rename_i hcurrent
    exact .inr (.go hcurrent .tell)
  · rename_i hcurrent
    exact .inr (.finish hcurrent)

theorem Crew.steps_turn (crew : Crew) (x : Turn) : crew.Steps (crew.turn x) := by
  unfold turn
  split
  · exact .refl
  · rename_i w hw
    rcases w.step_turn crew.service x.leftover with heq | hstep
    · rw [heq]
      have hset : crew.workers.set x.worker w = crew.workers := by
        obtain ⟨hlt, rfl⟩ := List.getElem?_eq_some_iff.1 hw
        exact List.set_getElem_self hlt
      dsimp only
      rw [hset]
    · exact .single (.of hw hstep)

/-- Turns are steps. -/
theorem Crew.steps_turns (crew : Crew) (xs : List Turn) : crew.Steps (crew.turns xs) := by
  induction xs generalizing crew with
  | nil => exact .refl
  | cons x xs ih => exact (crew.steps_turn x).trans (ih (crew.turn x))

end TableTree
