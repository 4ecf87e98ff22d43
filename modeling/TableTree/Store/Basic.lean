import TableTree.Ancestors
import TableTree.Binding
import TableTree.BulkWrite
/-!
# Stores

A store keeps the tree in one table. It binds to the table at its first use, and after the table has
been destroyed through it, it refuses everything.

Results:

* `Store`, `Store.connect`: stores, from settings that are fit for use.
* `Store.bound`: binding, once.
-/

namespace TableTree

/-- A store with its settings. -/
structure Store where
  settings : Settings
deriving DecidableEq

namespace Store

open Operation

/-- The table of a store. -/
def table (s : Store) : String := s.settings.tableName

/-- The region of a store. -/
def region (s : Store) : String := s.settings.region

/-- The owner of what a store reads. -/
def owner (s : Store) : String := s.settings.owner

/-- The way a store calls the service. -/
def client (s : Store) : Client := s.settings.client

/-- Opens a store when its settings are fit for use and its region can be reached. The table is not
touched. -/
def connect (settings : Settings) (reach : String → Except ServiceError Unit) :
    Except StoreError Store := do
  settings.check.mapError .invalidArgument
  (reach settings.region).mapError
    (.backend (settings.client.site "createClient" settings.region))
  pure ⟨settings⟩

/-- The failure of a store whose table was destroyed. -/
def destroyedError (s : Store) : StoreError :=
  .tableNotFound s.table s.region "the table has been destroyed"

/-- Binds to the table unless that has been done. A failure is not remembered, so the next use tries
again. -/
def bound (s : Store) : Operation Binding := do
  let m ← getThe Memory
  if m.destroyed then throw s.destroyedError
  else
    match m.binding with
    | some binding => pure binding
    | none =>
      let binding ← s.settings.bind
      modify fun m => { m with binding := some binding }
      pure binding

/-- Whether a store with the given memory is bound to a table that it has not destroyed. -/
def isBound (m : Memory) : Bool := m.binding.isSome && !m.destroyed

/-- Binds to the table now. -/
def prepare (s : Store) : Operation Unit := do
  let _ ← s.bound
  pure ()

/-- Writes the items of entries and removes those of keys, and gives the number of writes. -/
def writeEntries (s : Store) (deletes : List Key) (entries : List Entry) : Operation Nat := do
  let items ← ofPath (Entry.items entries)
  s.client.writeAll s.settings.batchWriteLimit deletes items

/-- The printed form of a store. -/
def text (s : Store) : String :=
  "TableMetadataStore\x7bregion=" ++ s.region ++ ", tableName=" ++ s.table ++ "\x7d"

/-- A store as a term. -/
def term (s : Store) (m : Memory) : String :=
  recordTerm "TableMetadataStore"
    [("table", Text.quoted s.table), ("region", Text.quoted s.region),
      ("bound", toString (isBound m)), ("version", toString Marker.current)]

end Store

end TableTree
