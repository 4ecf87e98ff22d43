import TableTree.Path.Basic
/-!
# Entries of the tree

An entry is what the tree knows of one path: a file, a directory, or the tombstone of either.

Results:

* `Entry.file`, `Entry.directory`, `Entry.tombstone`: the three kinds.
* `Listing.emptiness`: only a complete listing shows that a directory is empty.
-/

namespace TableTree

/-- What is known about the children of a directory. -/
inductive Emptiness
  | empty
  | occupied
  | unknown
deriving DecidableEq, Repr

/-- An entry of the tree. Times are in milliseconds since 1970; a directory has no time and no
size. -/
structure Entry where
  path : Path
  isDir : Bool
  isDeleted : Bool
  modTime : Int64
  length : Int64
  blockSize : Int64
  owner : String
  emptiness : Emptiness
deriving DecidableEq

namespace Entry

/-- A file. -/
def file (path : Path) (length modTime blockSize : Int64) (owner : String) : Entry where
  path := path
  isDir := false
  isDeleted := false
  modTime := modTime
  length := length
  blockSize := blockSize
  owner := owner
  emptiness := .unknown

/-- A directory. -/
def directory (path : Path) (owner : String) : Entry where
  path := path
  isDir := true
  isDeleted := false
  modTime := 0
  length := 0
  blockSize := 0
  owner := owner
  emptiness := .unknown

/-- The mark of a deleted path, in the shape of a file that was changed at the time of deletion. -/
def tombstone (path : Path) (now : Int64) : Entry where
  path := path
  isDir := false
  isDeleted := true
  modTime := now
  length := 0
  blockSize := 0
  owner := ""
  emptiness := .unknown

/-- Whether the entry is no tombstone. -/
def isLive (e : Entry) : Bool := !e.isDeleted

end Entry

/-- The children of a directory, in the order of their names. -/
structure Listing where
  path : Path
  entries : List Entry
  /-- whether no child is missing -/
  authoritative : Bool
deriving DecidableEq

namespace Listing

/-- What a listing tells about its directory: a live child shows that it is occupied, and a
complete listing without one that it is empty. -/
def emptiness (l : Listing) : Emptiness :=
  if l.entries.any Entry.isLive then .occupied else if l.authoritative then .empty else .unknown

/-- The names of the children. -/
def names (l : Listing) : List String := l.entries.map fun e => e.path.name

end Listing

end TableTree
