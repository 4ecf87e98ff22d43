import TableTree.Entry.Item
import TableTree.Program
/-!
# Directories above an entry

The table cannot see to it that a live path has live ancestors, so whatever is written brings the
directories above it along: all of them, without a look at the table (`Entry.withAncestors`), or
those that the table lacks (`Entry.missingAncestors`). Roots are never written.

Results:

* `Entry.withAncestors`: a list of entries with all directories above them, shallowest first.
* `Entry.keepLast`: a list of entries with one entry for each path, the last.
* `Entry.missingAncestors`: an entry with the directories above it that are not live, those first.
-/

namespace TableTree

namespace Entry

/-- The directory that stands in for a missing ancestor. It has a child, so it is not empty. -/
def standIn (path : Path) (owner : String) : Entry :=
  { directory path owner with emptiness := .occupied }

/-! ## Without a look at the table -/

/-- Entries by path, shallower paths first. -/
abbrev ByDepth := Std.ExtTreeMap Path Entry Path.compareByDepth

/-- Adds stand-ins for ancestors, nearest first, up to the first that is there already. -/
def addStandIns (owner : String) : List Path → ByDepth → ByDepth
  | [], known => known
  | path :: further, known =>
    if known.contains path then known
    else addStandIns owner further (known.insert path (standIn path owner))

/-- Adds an entry and the directories above it. The entry replaces whatever stood for its path; an
entry at a root is left out. -/
def addWithAncestors (owner : String) (known : ByDepth) (e : Entry) : ByDepth :=
  if e.path.isRoot then known
  else addStandIns owner e.path.ancestors (known.insert e.path e)

/-- The entries of a list and the directories above them, each path once, shallower paths first. Of
several entries of a path the last counts, and any counts more than a stand-in. -/
def withAncestors (es : List Entry) (owner : String) : List Entry :=
  (es.foldl (addWithAncestors owner) ∅).values

/-! ## One entry for each path -/

/-- Puts an entry in the place of the first one of its path, or at the end. -/
def putLater (e : Entry) : List Entry → List Entry
  | [] => [e]
  | d :: ds => if d.path = e.path then e :: ds else d :: putLater e ds

/-- One entry for each path of a list: the last, at the place of the first. -/
def keepLast (es : List Entry) : List Entry := es.foldl (fun known e => putLater e known) []

/-! ## With a look at the table -/

/-- The stand-ins for the ancestors in a list, nearest first, up to the first that the table holds
alive. -/
def standInsUntilLive (table owner : String) :
    List (Path × Key) → Program (Except ServiceError (List Entry))
  | [] => pure (.ok [])
  | (path, key) :: further => do
    match ← Program.ask (.getItem table key) with
    | .error e => pure (.error e)
    | .ok found =>
      if found.any Item.isLive then pure (.ok [])
      else
        match ← standInsUntilLive table owner further with
        | .error e => pure (.error e)
        | .ok above => pure (.ok (standIn path owner :: above))

/-- The entry with a stand-in for each missing ancestor, shallower paths first. An entry at a root
is left out itself. -/
def missingAncestors (e : Entry) (table owner : String) (ancestors : List (Path × Key)) :
    Program (Except ServiceError (List Entry)) := do
  match ← standInsUntilLive table owner ancestors with
  | .error e => pure (.error e)
  | .ok above => pure (.ok (above.reverse ++ if e.path.isRoot then [] else [e]))

end Entry

/-- The ancestors of a path with their keys, nearest first. -/
def Path.ancestorKeys (p : Path) : Except PathFault (List (Path × Key)) :=
  p.ancestors.mapM fun q => q.key.map fun key => (q, key)

end TableTree
