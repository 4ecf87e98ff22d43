import TableTree.Walk
/-!
# Changing the tree

Whatever is written brings the directories above it along, those first. Deleting leaves tombstones,
which stay until they are pruned. A root is never written.

Results:

* `Store.put`, `Store.putAll`, `Store.putListing`: storing entries.
* `Store.delete`, `Store.deleteSubtree?`: leaving tombstones.
* `Store.move`: leaving tombstones and storing entries at once.
* `Store.forget`, `Store.prune`: removing items for good.
-/

namespace TableTree.Store

open Operation

/-- An entry with the directories above it that the table lacks. -/
def withMissingAncestors (s : Store) (e : Entry) : Operation (List Entry) := do
  let ancestors ← ofPath e.path.ancestorKeys
  s.client.retry "paths to put" e.path.text true
    (e.missingAncestors s.table s.owner ancestors)

/-- Stores an entry, and the directories above it that the table lacks. -/
def put (s : Store) (e : Entry) : Operation Unit := do
  let _ ← s.bound
  let entries ← s.withMissingAncestors e
  let _ ← s.writeEntries [] entries
  pure ()

/-- Stores entries and all directories above them, without a look at the table. -/
def putAll (s : Store) (es : List Entry) : Operation Unit := do
  let _ ← s.bound
  let _ ← s.writeEntries [] (Entry.withAncestors es s.owner)
  pure ()

/-- Stores a directory, the directories above it that the table lacks, and the entries of its
listing. -/
def putListing (s : Store) (l : Listing) : Operation Unit := do
  let _ ← s.bound
  let directory := { Entry.directory l.path s.owner with emptiness := l.emptiness }
  let above ← s.withMissingAncestors directory
  let children := l.entries.filter fun e => !e.path.isRoot
  let _ ← s.writeEntries [] (Entry.keepLast (above ++ children))
  pure ()

/-- Leaves a tombstone at a path. -/
def delete (s : Store) (path : Path) : Operation Unit := do
  let _ ← s.bound
  if path.isRoot then pure ()
  else
    let now ← perform .now
    let item ← ofPath (Entry.tombstone path now).item
    s.client.retry "Put tombstone" path.text true (.ask (.putItem s.table item))

/-- Removes the item of a path. -/
def forget (s : Store) (path : Path) : Operation Unit := do
  let _ ← s.bound
  if path.isRoot then pure ()
  else
    let key ← ofPath path.key
    s.client.retry "Delete key" path.text true (.ask (.deleteItem s.table key))

/-- Leaves tombstones at a path and at everything live below it, the deepest first, so that nothing
live ever lies below one of them. Nothing happens when the path has no live entry. Gives none, with
nothing written, when more than `visits` entries lie there. -/
def deleteSubtree? (s : Store) (visits : Nat) (path : Path) : Operation (Option Unit) := do
  let _ ← s.bound
  match (← s.get path false).filter Entry.isLive with
  | none => pure (some ())
  | some root =>
    match ← (Walk.start root).collect? s visits with
    | none => pure none
    | some subtree =>
      let now ← perform .now
      let doomed := subtree.reverse.filter fun e => !e.path.isRoot
      let _ ← s.writeEntries [] (doomed.map fun e => .tombstone e.path now)
      pure (some ())

/-- Stores the entries of `creates` with all directories above them and leaves tombstones at
`deletes`, in one list of writes. A path in both ends as a tombstone. -/
def move (s : Store) (deletes : Option (List Path)) (creates : Option (List Entry)) :
    Operation Unit := do
  if deletes.isNone && creates.isNone then pure ()
  else
    let _ ← s.bound
    let created := creates.elim [] fun es => Entry.withAncestors es s.owner
    let deleted ← match deletes with
      | none => pure []
      | some paths =>
        let now ← perform .now
        pure ((paths.filter fun p => !p.isRoot).map fun p => Entry.tombstone p now)
    let _ ← s.writeEntries [] (Entry.keepLast (created ++ deleted))
    pure ()

/-- Removes slice after slice of keys, with a pause before each, and gives the number of keys. -/
def removeSlices (s : Store) : List (List Key) → Operation Nat
  | [] => pure 0
  | keys :: further => do
    s.client.pause "prune" s.table s.settings.backgroundSleep
    let removed ← s.writeEntries keys []
    return removed + (← s.removeSlices further)

/-- Removes the items of paths that were last changed before a time, and gives their number. -/
def prune (s : Store) (before : Int64) : Operation Nat := do
  let _ ← s.bound
  let expired ← s.client.retry "prune" s.table true (.ask (.scan s.table (some (.expired before))))
  let keys := (expired.map Item.key).filter fun key => key.path?.isSome
  s.removeSlices (slices s.settings.batchWriteLimit keys)

end TableTree.Store
