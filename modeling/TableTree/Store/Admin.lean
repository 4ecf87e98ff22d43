import TableTree.Store.Basic
import TableTree.Text.Blank
/-!
# Looking after the table

Results:

* `Store.updateCapacity`, `Store.updateParameters`: changing the capacity of the table.
* `Store.destroy`: deleting the table.
* `Store.diagnostics`: what is known about store and table.
-/

namespace TableTree.Store

open Operation

/-- The parameter that sets the capacity for reads. -/
def readCapacityName : String := "read-capacity"

/-- The parameter that sets the capacity for writes. -/
def writeCapacityName : String := "write-capacity"

/-- Looks at the table once. -/
def describe (s : Store) : Operation TableDescription :=
  s.client.once "describe" s.table (.ask (.describeTable s.table))

/-- Changes the capacity of the table and waits until the table is active again. What is not given
stays as it is, and nothing happens when all does. -/
def updateCapacity (s : Store) (read write : Option Int64) : Operation Unit := do
  let _ ← s.bound
  let current := (← s.describe).capacity
  let wanted : Capacity := ⟨read.getD current.read, write.getD current.write⟩
  if wanted.read ≤ 0 ∨ wanted.write ≤ 0 then
    throw (.invalidArgument (.capacity wanted.read wanted.write))
  else if wanted = current then pure ()
  else
    let _ ← s.client.retry "ProvisionTable" s.table true (.ask (.updateTable s.table wanted))
    s.settings.awaitActive

/-- The integer that a parameter holds, blanks around it taken off. -/
def parameter (parameters : Std.ExtTreeMap String String) (name : String) :
    Except StoreError (Option Int64) :=
  match parameters[name]? with
  | none => .ok none
  | some value =>
    match Text.Integer.read? (Text.trim value.toList) with
    | .ok n => .ok (some n)
    | .error fault => .error (.invalidArgument (.parameter name value fault))

/-- Changes the capacity of the table as parameters say; other parameters are ignored. -/
def updateParameters (s : Store) (parameters : Std.ExtTreeMap String String) :
    Operation Unit := do
  let read ← ofResult (parameter parameters readCapacityName)
  let write ← ofResult (parameter parameters writeCapacityName)
  s.updateCapacity read write

/-- Deletes the table, bound or not, and waits until it is gone. A table that does not exist is as
good as deleted. The store counts as destroyed from the start, and as usable again only when the
deletion was refused. -/
def destroy (s : Store) : Operation Unit := do
  if (← getThe Memory).destroyed then pure ()
  else
    modify fun m => { m with destroyed := true }
    match ← outcome (s.client.retry "delete" s.table true (.ask (.deleteTable s.table))) with
    | .ok _ => s.settings.awaitDeleted
    | .error e =>
      if e.kind = .notFound then pure ()
      else
        modify fun m => { m with destroyed := false }
        throw e

/-- What is known about the table of a bound store. -/
def tableFacts (d : TableDescription) : List (String × String) :=
  [("name", d.name), ("status", d.status), ("arn", d.arn), ("size", toString d.sizeBytes),
    ("item-count", toString d.itemCount), (readCapacityName, toString d.capacity.read),
    (writeCapacityName, toString d.capacity.write), ("table", d.term)]

/-- What is said of the table of a store that is not bound. -/
def unboundFacts : List (String × String) :=
  [("name", "Table Metadata Store"), ("table", "none"), ("status", "undefined")]

/-- What is known about store and table, by name. -/
def diagnostics (s : Store) : Operation (Std.ExtTreeMap String String) := do
  let facts ←
    if isBound (← getThe Memory) then do pure (tableFacts (← s.describe)) else pure unboundFacts
  let throttleEvents := (← getThe Memory).throttleEvents
  pure (.ofList (facts ++
    [("description", "Table-backed metadata store"), ("region", s.region),
      ("retryPolicy", s.client.policy.text), ("throttleEvents", toString throttleEvents)]))

end TableTree.Store
