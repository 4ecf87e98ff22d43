import TableTree.Item
import TableTree.Path.Text
/-!
# Keys of paths

The entry of `s3a://bucket/a/b/c` is kept under the key `(/bucket/a/b, c)`: the children of a path
share a partition, and several buckets share a table. A root has a partition but no key.

Results:

* `Path.partition`, `Path.key?`: where the children of a path and the path itself are kept.
* `Key.path?`: the path of a key, if it has one.
-/

namespace TableTree

/-- The partition that holds the children of a path. -/
def Path.partition (p : Path) : String := "/" ++ "/".intercalate (p.bucket.val :: p.names)

/-- The key of a path; a root has none. -/
def Path.key? (p : Path) : Option Key := p.parent?.map fun q => ⟨q.partition, p.name⟩

/-- The key of a path, or the fault of a root. -/
def Path.key (p : Path) : Except PathFault Key :=
  match p.key? with
  | some k => .ok k
  | none => .error (.rootKey p)

@[simp] theorem Path.key?_below (p : Path) (s : Segment) :
    (p.below s).key? = some ⟨p.partition, s.val⟩ := by
  simp [key?]

theorem Path.key?_eq_none_iff {p : Path} : p.key? = none ↔ p.isRoot = true := by
  simp [key?, parent?_eq_none_iff]

/-- The path of a key: a partition that starts with a slash and a bucket, and a child that is a
segment. The parts of the partition are normalised. -/
def Key.path? (k : Key) : Option Path :=
  match k.parent.toList with
  | '/' :: rest =>
    match Path.parts rest with
    | [] => none
    | bucket :: parts => do
      let bucket ← Bucket.ofString? bucket
      (Path.mk bucket (Path.normalise parts)).child? k.child
  | _ => none

end TableTree
