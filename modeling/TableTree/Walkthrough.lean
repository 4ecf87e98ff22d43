import TableTree.Service.Script
import TableTree.Settings.Document
import TableTree.Store.Admin
import TableTree.Store.Write
/-!
# A walk through the store

A tour stores some files in a new table, renames one directory, deletes another, removes what is
old, and prints what it sees on the way.

Results:

* `Options.ofArguments?`: what the arguments of a call ask for.
* `Walkthrough.report`: the printed lines of a tour and how it ended.
* `Report.exitCode`, `Report.complaint`: the exit code and the wording of a failure.
-/

namespace TableTree

/-- What a walkthrough is asked for. -/
structure Options where
  /-- the file with the settings -/
  config : Option String := none
  bucket : String := "demo-bucket"
  /-- whether the table is kept at the end -/
  keep : Bool := false
deriving DecidableEq

namespace Options

/-- The value of an argument that begins with a name and an equality sign. -/
def valueOf? (name : String) (argument : String) : Option String :=
  let start := (name ++ "=").toList
  if start.isPrefixOf argument.toList then
    some (String.ofList (argument.toList.drop start.length))
  else none

/-- The options after the given ones are changed by arguments. -/
def update? (o : Options) : List String → Option Options
  | [] => some o
  | "--keep" :: rest => update? { o with keep := true } rest
  | argument :: rest =>
    match valueOf? "--bucket" argument, valueOf? "--config" argument with
    | some bucket, _ => update? { o with bucket := bucket } rest
    | none, some file => update? { o with config := some file } rest
    | none, none =>
      match rest with
      | [] => none
      | value :: rest =>
        if argument = "--bucket" ∨ argument = "-b" then update? { o with bucket := value } rest
        else if argument = "--config" ∨ argument = "-c" then
          update? { o with config := some value } rest
        else none

/-- What arguments ask for, if they are understood. -/
def ofArguments? (arguments : List String) : Option Options := update? {} arguments

end Options

/-- What a walkthrough leaves: the lines that it printed, and why it ended early if it did. -/
structure Report where
  lines : List String
  failure : Option StoreError

/-- The exit code of a walkthrough: zero if nothing ended it early. -/
def Report.exitCode (r : Report) : UInt32 := if r.failure.isNone then 0 else 1

/-- The wording of the failure that ended a walkthrough, with its cause in the service. -/
def Report.complaint (r : Report) : Option String :=
  r.failure.map fun e =>
    let cause := match e with
      | .backend _ source => "\n\nCaused by:\n    " ++ source.message
      | _ => ""
    "Error: " ++ e.message ++ cause

namespace Walkthrough

/-- A tour under way: the service it uses, what its store remembers, and what it printed. -/
structure Stage where
  host : Host Service
  memory : Memory := {}
  lines : List String := []

/-- A part of a tour. What was printed before a failure stays printed. -/
abbrev Tour (α : Type) : Type := ExceptT StoreError (StateM Stage) α

variable {α : Type}

/-- Prints a line. -/
def say (line : String) : Tour Unit := modify fun t => { t with lines := t.lines ++ [line] }

/-- Performs an operation of the store. -/
def perform (op : Operation α) : Tour α := do
  let t ← getThe Stage
  let run := op.run Service.backend t.memory t.host
  set { t with host := run.host, memory := run.memory }
  ExceptT.mk (pure run.outcome)

/-- A path, or the failure of the tour. -/
def ofPath (x : Except PathFault Path) : Tour Path :=
  ExceptT.mk (pure (x.mapError fun fault => .invalidArgument (.path fault)))

/-- A text with blanks after it up to a width. -/
def padded (width : Nat) (s : String) : String :=
  s ++ String.ofList (List.replicate (width - s.length) ' ')

/-- The settings of a walkthrough that is given none. -/
def settings : Settings where
  tableName := "treemeta-demo"
  region := "local"
  owner := "demo"
  createTable := true

/-- The milliseconds of a day. -/
def day : Int64 := 24 * 60 * 60 * 1000

/-- The files of the tour: path, length and age. -/
def files : List (String × Int64 × Int64) :=
  [("src/main.rs", 1200, 0), ("src/lib.rs", 800, 0), ("docs/guide/intro.md", 300, 0),
    ("tmp/stale.log", 50, 2 * day)]

/-- A path in a bucket. -/
def pathIn (bucket relative : String) : Tour Path := do
  let root ← ofPath (Path.rootOf bucket)
  ofPath (Path.read? (root.text ++ relative))

/-- The line of an entry in a printed listing. -/
def entryLine (e : Entry) : String :=
  let kind := if e.isDeleted then "deleted" else if e.isDir then "dir" else "file"
  "  " ++ padded 8 kind ++ " " ++ e.path.text

/-- Prints the children of a path. -/
def sayListing (store : Store) (path : Path) : Tour Unit := do
  match ← perform (store.listChildren path) with
  | some listing => listing.entries.forM fun e => say (entryLine e)
  | none => say s!"  {path.text} does not exist"

/-- Moves a directory with its live children to another one. -/
def rename (store : Store) (source target : Path) : Tour Unit := do
  let children ← perform (store.listChildren source)
  let live := (children.elim [] Listing.entries).filter Entry.isLive
  let moved ← live.mapM fun e => do
    pure { e with path := ← ofPath (target.child e.path.name) }
  perform (store.move (some (source :: live.map Entry.path)) (some moved))

/-- Deletes a directory with all below it. -/
def deleteAll (store : Store) (path : Path) : Tour Unit := do
  let t ← getThe Stage
  let _ ← perform (store.deleteSubtree? (t.host.state.walkBound store.table) path)

/-- The tour through a bucket. -/
def tour (store : Store) (bucket : String) (keep : Bool) : Tour Unit := do
  perform store.prepare
  let now := (← getThe Stage).host.now
  let entries ← files.mapM fun (relative, length, age) => do
    pure (Entry.file (← pathIn bucket relative) length (now - age) 4096 "demo")
  perform (store.putAll entries)
  let root ← ofPath (Path.rootOf bucket)
  say s!"{root.text}:"
  sayListing store root
  let source ← pathIn bucket "src"
  let target ← pathIn bucket "lib"
  rename store source target
  deleteAll store (← pathIn bucket "docs")
  say s!"{root.text} after rename and delete:"
  sayListing store root
  say s!"{target.text}:"
  sayListing store target
  let pruned ← perform (store.prune (now - day))
  say s!"pruned {pruned} entries older than a day"
  let facts ← perform store.diagnostics
  facts.toList.forM fun (name, value) => say ("  " ++ padded 15 name ++ " " ++ value)
  unless keep do perform store.destroy

/-- The report of a walkthrough on a new service in the region of the settings. -/
def report (given : Except Misuse Settings) (bucket : String) (keep : Bool) (now : Int64) :
    Report :=
  match given with
  | .error cause => ⟨[], some (.invalidArgument cause)⟩
  | .ok settings =>
    let service : Service := { region := settings.region }
    match Store.connect settings service.reach with
    | .error e => ⟨[], some e⟩
    | .ok store =>
      match (tour store bucket keep).run.run { host := { state := service, now := now } } with
      | (.ok (), t) => ⟨t.lines, none⟩
      | (.error e, t) => ⟨t.lines, some e⟩

end Walkthrough

end TableTree
