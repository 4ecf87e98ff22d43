import TableTree.Store.Basic
/-!
# Reading the tree

Results:

* `Store.get`: the entry of a path, tombstones included.
* `Store.listChildren`: the children of a path, tombstones included.
-/

namespace TableTree.Store

open Operation

/-- Reads the entry of a key. With `hint`, a directory is also asked for live children; their
absence shows nothing, since the table need not hold all children. -/
def readEntry (s : Store) (path : Path) (key : Key) (hint : Bool) :
    Program (Except ServiceError (Option Entry)) := do
  match ← Program.ask (.getItem s.table key) with
  | .error e => pure (.error e)
  | .ok found =>
    match found.bind (Entry.ofItem? · s.owner) with
    | none => pure (.ok none)
    | some entry =>
      if hint && entry.isDir then
        match ← Program.ask (.query s.table path.partition (some .live)) with
        | .error e => pure (.error e)
        | .ok children =>
          let emptiness := if children.isEmpty then Emptiness.unknown else .occupied
          pure (.ok (some { entry with emptiness := emptiness }))
      else pure (.ok (some entry))

/-- The entry of a path, if there is one. A root is always a directory. -/
def get (s : Store) (path : Path) (hint : Bool) : Operation (Option Entry) := do
  let _ ← s.bound
  if path.isRoot then pure (some (.directory path s.owner))
  else
    let key ← ofPath path.key
    s.client.once "get" path.text (s.readEntry path key hint)

/-- The children of a path in the order of their names. There is no listing when there are no
children and no entry of the path itself. -/
def listChildren (s : Store) (path : Path) : Operation (Option Listing) := do
  let _ ← s.bound
  let items ← s.client.once "listChildren" path.text
    (.ask (.query s.table path.partition none))
  let entries := items.filterMap (Entry.ofItem? · s.owner)
  let listing : Listing := ⟨path, entries, false⟩
  if entries.isEmpty then pure ((← s.get path false).map fun _ => listing)
  else pure (some listing)

end TableTree.Store
