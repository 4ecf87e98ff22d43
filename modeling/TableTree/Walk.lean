import TableTree.Store.Read
/-!
# Walks through a subtree

A walk visits a path and everything below it, breadth first: every entry that is taken from the
front of a queue is a visit, and the live children of a directory go to the back. The entry that the
walk starts from is visited whatever it is.

Results:

* `Walk.next`: one visit; `Walk.visitMany`: several; `Walk.collect?`: all, up to a given number.
-/

namespace TableTree

/-- A walk with the entries that are still to be visited. -/
structure Walk where
  queue : List Entry
deriving DecidableEq

namespace Walk

/-- The walk that starts from an entry. -/
def start (root : Entry) : Walk := ⟨[root]⟩

/-- Visits the next entry and gives the walk that is left; no entry when the walk is over. An entry
leaves the queue before its children are listed, so it is not visited again after a failure. -/
def next (s : Store) (w : Walk) :
    StateT Memory Program (Except StoreError (Option Entry) × Walk) := do
  match w.queue with
  | [] => pure (.ok none, w)
  | entry :: queue =>
    if entry.isDir then
      match ← ExceptT.run (s.listChildren entry.path) with
      | .error e => pure (.error e, ⟨queue⟩)
      | .ok none => pure (.ok (some entry), ⟨queue⟩)
      | .ok (some listing) =>
        pure (.ok (some entry), ⟨queue ++ listing.entries.filter Entry.isLive⟩)
    else pure (.ok (some entry), ⟨queue⟩)

/-- All entries of a walk in the order of their visits; none when the walk is longer than
`visits`. -/
def collect? (s : Store) : (visits : Nat) → Walk → Operation (Option (List Entry))
  | 0, w => pure (if w.queue.isEmpty then some [] else none)
  | visits + 1, w => do
    let (visited, w) ← ExceptT.lift (w.next s)
    match ← Operation.ofResult visited with
    | none => pure (some [])
    | some entry => return (← collect? s visits w).map (entry :: ·)

/-- The entries of so many visits; those after the end of the walk have none. -/
def visitMany (s : Store) : (visits : Nat) → Walk → Operation (List (Option Entry))
  | 0, _ => pure []
  | visits + 1, w => do
    let (visited, w) ← ExceptT.lift (w.next s)
    let entry ← Operation.ofResult visited
    return entry :: (← visitMany s visits w)

end Walk

end TableTree
