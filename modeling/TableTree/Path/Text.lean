import TableTree.Path.Basic
import TableTree.Text.Fields
import TableTree.Text.Quoted
/-!
# Paths as text

A path is written `s3a://bucket/dir/file`. Reading drops empty parts and parts `.`, and a part `..`
takes back the part before it, though never the bucket.

Results:

* `Path.text`, `Path.read?`: writing and reading.
* `Path.normalise_names`: the names of a path are their own normal form.
* `PathFault.message`: the wording of what may be wrong with a text or a name.
-/

namespace TableTree

/-- The scheme of every path. -/
def scheme : String := "s3a"

/-- Why a text or a name gives no path. -/
inductive PathFault
  /-- the text has no `://` -/
  | notAbsolute (text : String)
  /-- nothing stands before `://` -/
  | missingScheme (text : String)
  /-- another scheme stands before `://` -/
  | badScheme (text : String)
  /-- nothing stands between `://` and the next slash -/
  | missingBucket (text : String)
  /-- the name is no bucket name -/
  | badBucket (name : String)
  /-- the name is no segment -/
  | badChild (name : String) (parent : Path)
  /-- a root has no item key -/
  | rootKey (root : Path)
deriving DecidableEq

namespace Path

/-- The printed form: scheme, bucket and segments. -/
def text (p : Path) : String := scheme ++ "://" ++ p.bucket.val ++ "/" ++ "/".intercalate p.names

/-- One part of a text, after the segments that came before it: a segment is added, `..` takes one
back, and anything else changes nothing. -/
def addPart (sofar : List Segment) (part : String) : List Segment :=
  match Segment.ofString? part with
  | some s => sofar ++ [s]
  | none => if part = ".." then sofar.dropLast else sofar

/-- The segments that a list of parts stands for. -/
def normalise (parts : List String) : List Segment := parts.foldl addPart []

/-- The parts of a text between its slashes. -/
def parts (s : List Char) : List String := (Text.fields '/' s).map String.ofList

/-- Reads a path. -/
def read? (s : String) : Except PathFault Path :=
  match Text.cutAt "://".toList s.toList with
  | none => .error (.notAbsolute s)
  | some (before, after) =>
    if before = [] then .error (.missingScheme s)
    else if String.ofList before ≠ scheme then .error (.badScheme s)
    else
      match Bucket.ofString? (String.ofList (after.takeWhile (· ≠ '/'))) with
      | none => .error (.missingBucket s)
      | some bucket => .ok ⟨bucket, normalise (parts (after.dropWhile (· ≠ '/')))⟩

/-- The root of the bucket with the given name. -/
def rootOf (name : String) : Except PathFault Path :=
  match Bucket.ofString? name with
  | some bucket => .ok (root bucket)
  | none => .error (.badBucket name)

/-- The path of the given name directly below `p`. -/
def child (p : Path) (name : String) : Except PathFault Path :=
  match p.child? name with
  | some q => .ok q
  | none => .error (.badChild name p)

@[simp] theorem addPart_segment (sofar : List Segment) (s : Segment) :
    addPart sofar s.val = sofar ++ [s] := by
  simp [addPart, Segment.ofString?, s.property]

theorem foldl_addPart_names (sofar segments : List Segment) :
    (segments.map Subtype.val).foldl addPart sofar = sofar ++ segments := by
  induction segments generalizing sofar with
  | nil => simp
  | cons s segments ih =>
    rw [List.map_cons, List.foldl_cons, addPart_segment, ih, List.append_assoc, List.singleton_append]

/-- The names of a path normalise to its segments. -/
theorem normalise_names (p : Path) : normalise p.names = p.segments := by
  rw [normalise, names, foldl_addPart_names, List.nil_append]

end Path

/-- The wording of a fault. -/
def PathFault.message : PathFault → String
  | .notAbsolute text => s!"Path {text} is not absolute"
  | .missingScheme text => s!"Path {text} missing scheme"
  | .badScheme text => s!"Path {text} scheme must be {scheme}"
  | .missingBucket text => s!"Path {text} is missing bucket."
  | .badBucket name => s!"Invalid bucket name {Text.quoted name}"
  | .badChild name parent => s!"Invalid child name {Text.quoted name} under {parent.text}"
  | .rootKey root => s!"root path {root.text} has no item key"

end TableTree
