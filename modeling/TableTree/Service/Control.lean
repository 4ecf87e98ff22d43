import TableTree.Service.State
import TableTree.Service.Answer
/-!
# Controls of the simulated service

What a test does to the service behind the back of its clients: none of it is counted, and none of it
fails.

Results:

* `Service.createActiveTable`, `Service.setStatus`, `Service.putRaw`: changes of tables.
* `Service.planThrottles`, `Service.planFaults`, `Service.planLeftover`, `Service.planCreateRaces`,
  `Service.planLateWrite`: additions to the plan.
-/

namespace TableTree.Service

/-- Sets the number of looks that see a table pending after it is made or changed. -/
def setActivationLooks (s : Service) (looks : Nat) : Service := { s with activationLooks := looks }

/-- Makes an active table without items, in place of any other of its name. -/
def createActiveTable (s : Service) (name : String) (capacity : Capacity) : Service :=
  s.setTable name ⟨TableStatus.active.text, {}, capacity, .looks 0, ∅⟩

/-- Sets the status of a table for good. -/
def setStatus (s : Service) (name status : String) : Service :=
  match s.tables[name]? with
  | none => s
  | some t => s.setTable name { t with status := status, pending := .never }

/-- Stores an item in a table that is there. -/
def putRaw (s : Service) (name : String) (item : Item) : Service :=
  s.mapItems name (·.apply (.put item))

/-- The item of a key. -/
def getRaw (s : Service) (name : String) (key : Key) : Option Item :=
  (s.items? name).bind (·.item? key)

/-- The items of a table in the order of their keys. -/
def allItems (s : Service) (name : String) : List Item := (s.items? name).elim [] Items.all

/-- Throttles so many more requests for items. -/
def planThrottles (s : Service) (n : Nat) : Service :=
  { s with plan := { s.plan with throttles := s.plan.throttles + n } }

/-- Makes so many more requests for items fail. -/
def planFaults (s : Service) (n : Nat) : Service :=
  { s with plan := { s.plan with faults := s.plan.faults + n } }

/-- Leaves so many writes out of the batch with the given number. -/
def planLeftover (s : Service) (call n : Nat) : Service :=
  { s with plan := { s.plan with leftovers := s.plan.leftovers.insert call n } }

/-- Has somebody else make so many more of the tables that are made. -/
def planCreateRaces (s : Service) (n : Nat) : Service :=
  { s with plan := { s.plan with createRaces := s.plan.createRaces + n } }

/-- Has somebody else store an item once so many more reads have been served. -/
def planLateWrite (s : Service) (name : String) (item : Item) (reads : Nat) : Service :=
  if reads = 0 then s.putRaw name item
  else
    { s with plan := { s.plan with lateWrites := s.plan.lateWrites ++ [⟨name, item, reads⟩] } }

/-- Starts counting anew. -/
def resetCounts (s : Service) : Service := { s with counts := {} }

/-- A number of visits that no walk through a table needs: one for each item that the table holds or
will be given during the walk, one for the root, and one to see that the walk is over. -/
def walkBound (s : Service) (name : String) : Nat :=
  (s.items? name).elim 0 (·.size) + s.plan.lateWrites.length + 2

end TableTree.Service
