import TableTree.Client
import TableTree.Marker
/-!
# Binding to a table

Before a store uses its table it binds to it: it looks at the status, makes the table if it is missing
and may be made, waits until it is active, and checks the version marker.

Results:

* `Settings.bind`: binding to the table of the settings.
* `Settings.awaitActive`, `Settings.awaitDeleted`: waiting for a table to come and to go.
-/

namespace TableTree.Settings

open Operation

/-- The failure of a table that cannot be used. -/
def unavailable (s : Settings) (reason : String) : StoreError :=
  .tableUnavailable s.tableName s.region reason

/-- Looks at the table under the policy. -/
def describe (s : Settings) : Operation TableDescription :=
  s.client.retry "describeTable" s.tableName true (.ask (.describeTable s.tableName))

/-- Waits until the table is active, for at most the given number of looks. -/
def awaitActiveFor (s : Settings) : Nat → Operation Unit
  | 0 => throw (s.unavailable s!"table is not active after {s.tableWaitMaxPolls} polls")
  | looks + 1 => do
    match (← s.describe).tableStatus with
    | .active => pure ()
    | .deleting => throw (s.unavailable "table is being deleted")
    | _ =>
      s.client.pause "waitForTableActive" s.tableName s.tablePollInterval
      s.awaitActiveFor looks

/-- Waits until the table is active. -/
def awaitActive (s : Settings) : Operation Unit := s.awaitActiveFor s.tableWaitMaxPolls.toNat

/-- Waits until the table is gone, for at most the given number of looks. -/
def awaitDeletedFor (s : Settings) : Nat → Operation Unit
  | 0 => throw (s.unavailable s!"table still exists after {s.tableWaitMaxPolls} polls")
  | looks + 1 => do
    match ← outcome s.describe with
    | .ok _ =>
      s.client.pause "waitForTableDeleted" s.tableName s.tablePollInterval
      s.awaitDeletedFor looks
    | .error e => if e.kind = .notFound then pure () else throw e

/-- Waits until the table is gone. -/
def awaitDeleted (s : Settings) : Operation Unit := s.awaitDeletedFor s.tableWaitMaxPolls.toNat

/-- Reads the version marker under the policy. -/
def readMarker (s : Settings) : Operation (Option Item) :=
  s.client.retry "getVersionMarker" s.tableName true (.ask (.getItem s.tableName Marker.key))

/-- Reads the version marker, and again after each wait of the backoff while it is missing: whoever
makes the table may still be about to write it. -/
def awaitMarker (s : Settings) (backoff : Backoff) : Operation (Option Item) := do
  match ← s.readMarker with
  | some marker => pure (some marker)
  | none =>
    match _h : backoff.next? with
    | none => pure none
    | some (duration, backoff') =>
      s.client.pause "getVersionMarker" s.tableName duration
      s.awaitMarker backoff'
termination_by backoff.remaining
decreasing_by exact Backoff.remaining_lt_of_next? _h

/-- Makes the table, waits for it and writes the version marker. A table that is in use already was
made by somebody else in the meantime, and is waited for as well. -/
def makeTable (s : Settings) : Operation Binding := do
  match ← perform (.ask (.createTable s.tableName {} s.capacity)) with
  | .ok _ | .error (.resourceInUse _) => pure ()
  | .error e => throw (.backend (s.client.site "createTable" s.tableName) e)
  s.awaitActive
  let createdAt ← perform .now
  s.client.retry "putVersionMarker" s.tableName true
    (.ask (.putItem s.tableName (Marker.item Marker.current createdAt)))
  pure ⟨true, Marker.current, some createdAt⟩

/-- Checks the version marker of a table that is there. -/
def checkMarker (s : Settings) : Operation Binding := do
  let marker ← s.awaitMarker ⟨s.policy, 0⟩
  let version ← ofResult (Marker.check s.tableName marker)
  pure ⟨false, version, marker.bind Marker.createdAt?⟩

/-- Binds to a table that is there, according to its status. -/
def bindTo (s : Settings) (description : TableDescription) : Operation Binding := do
  match description.tableStatus with
  | .creating => s.awaitActive
  | .deleting => throw (s.unavailable "table is being deleted")
  | .unrecognized status => throw (s.unavailable s!"Unknown table status {status}")
  | .updating | .active => pure ()
  s.checkMarker

/-- Binds to the table. The first look at it is not repeated. -/
def bind (s : Settings) : Operation Binding := do
  match ← perform (.ask (.describeTable s.tableName)) with
  | .ok description => s.bindTo description
  | .error (.resourceNotFound reason) =>
    if s.createTable then s.makeTable
    else
      throw (.tableNotFound s.tableName s.region s!"auto-creation is turned off ({reason})")
  | .error e => throw (.backend (s.client.site "initTable" s.tableName) e)

end TableTree.Settings
