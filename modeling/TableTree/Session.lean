import TableTree.Service.Script
import TableTree.Store.Admin
import TableTree.Store.Write
/-!
# Sessions

Several stores on one simulated service, used one operation after the other. Each store keeps its own
memory and is closed on its own; service, clock, timer and listener are shared.

Results:

* `Session.connect`: one more store.
* `Session.closing`: a step in the course of which a store is closed.
* `Session.perform`: an operation of a store.
* `Session.performFresh`: an operation with the settings of a store and nothing else of it.
-/

namespace TableTree

/-- A store with what it remembers and when it is closed. -/
structure Handle where
  store : Store
  memory : Memory := {}
  closesAt : Option Nat := none

/-- Stores on a service. -/
structure Session where
  host : Host (Scripted Service)
  /-- the stores in the order of their connection; one that could not be connected is missing -/
  handles : List (Option Handle) := []

namespace Session

variable {α : Type}

/-- A session on a new service. -/
def begin (region : String) (now : Int64) : Session where
  host := { state := { inner := { region := region } }, now := now }

/-- The simulated service. -/
def service (s : Session) : Service := s.host.state.inner

/-- The session with the service changed. -/
def mapService (s : Session) (f : Service → Service) : Session :=
  { s with host := { s.host with state := { s.host.state with inner := f s.service } } }

/-- Sends a request past the script. -/
def request (s : Session) (r : Request) : r.Answer × Session :=
  let (answer, service) := s.service.answer r
  (answer, s.mapService fun _ => service)

/-- The store with a number. -/
def handle? (s : Session) (number : Nat) : Option Handle := s.handles[number]?.join

/-- Connects one more store. A store that cannot be connected takes up a number as well. -/
def connect (s : Session) (settings : Settings) (refusal : Option ServiceError) :
    Except StoreError Nat × Session :=
  let reach (region : String) : Except ServiceError Unit :=
    match refusal with
    | some e => .error e
    | none => s.service.reach region
  match Store.connect settings reach with
  | .error e => (.error e, { s with handles := s.handles ++ [none] })
  | .ok store => (.ok s.handles.length, { s with handles := s.handles ++ [some { store := store }] })

/-- Closes a store after so many milliseconds. -/
def closeLater (s : Session) (number millis : Nat) : Session :=
  { s with handles := s.handles.modify number fun handle => handle.map fun handle =>
      let t := s.host.timerEnd millis
      { handle with closesAt := some (handle.closesAt.elim t (min t)) } }

/-- Takes a step. With `closeAfter`, a store is closed so many milliseconds after the step begins,
and the end of that time is waited for, also where there is no such store. -/
def closing (s : Session) (number : Nat) (closeAfter : Option Nat)
    (step : Session → α × Session) : α × Session :=
  match closeAfter with
  | none => step s
  | some millis =>
    let (a, after) := step (s.closeLater number millis)
    (a, { after with host := after.host.sleepUntil (s.host.timerEnd millis) })

/-- Performs an operation of a store. -/
def perform (s : Session) (number : Nat) (handle : Handle) (op : Store → Operation α) :
    Except StoreError α × Session :=
  let host := { s.host with closesAt := handle.closesAt }
  let run := (op handle.store).run (Scripted.backend Service.backend) handle.memory host
  let handle := { handle with memory := run.memory }
  (run.outcome, { s with host := run.host, handles := s.handles.set number (some handle) })

/-- Performs an operation with the settings of a store, but with a memory of its own and never
closed. -/
def performFresh (s : Session) (handle : Handle) (op : Store → Operation α) :
    (Except StoreError α × Memory) × Session :=
  let host := { s.host with closesAt := none }
  let run := (op handle.store).run (Scripted.backend Service.backend) {} host
  ((run.outcome, run.memory), { s with host := run.host })

end Session

end TableTree
