import Std.Data.ExtTreeMap
/-!
# Paths

A path names a bucket and, below it, a directory or file by a list of segments. Bucket and segment
names carry their validity, so every path has exactly one printed form and exactly one item key.

Results:

* `Path.child?_eq_some_iff`: a child has one more segment, and the name must be a segment.
* `Path.parent?_eq_some_iff`: a parent has one segment less.
* `Path.isUnder_iff`: a path lies under another when it continues the other's segments.
* `Path.instTransOrd`, `Path.instLawfulEqOrd`: paths are ordered by bucket, then by segments.
-/

namespace TableTree

/-- A bucket name is not empty and has no slash. -/
def IsBucket (s : String) : Prop := s ≠ "" ∧ '/' ∉ s.toList

/-- A segment is not empty, has no slash, and is neither `.` nor `..`. -/
def IsSegment (s : String) : Prop := s ≠ "" ∧ s ≠ "." ∧ s ≠ ".." ∧ '/' ∉ s.toList

instance : DecidablePred IsBucket := fun s => inferInstanceAs (Decidable (s ≠ "" ∧ _))
instance : DecidablePred IsSegment := fun s =>
  inferInstanceAs (Decidable (s ≠ "" ∧ s ≠ "." ∧ s ≠ ".." ∧ _))

/-- The name of a bucket. -/
abbrev Bucket := { s : String // IsBucket s }

/-- The name of a file or directory within its parent. -/
abbrev Segment := { s : String // IsSegment s }

/-- A text as a bucket name. -/
def Bucket.ofString? (s : String) : Option Bucket := if h : IsBucket s then some ⟨s, h⟩ else none

/-- A text as a segment. -/
def Segment.ofString? (s : String) : Option Segment := if h : IsSegment s then some ⟨s, h⟩ else none

theorem Bucket.ofString?_eq_some_iff {name : String} {bucket : Bucket} :
    ofString? name = some bucket ↔ name = bucket.val := by
  unfold ofString?
  split
  · rw [Option.some.injEq, Subtype.ext_iff]
  · rename_i h
    simp only [reduceCtorEq, false_iff]
    rintro rfl
    exact h bucket.property

/-- A bucket, or a file or directory in it. -/
structure Path where
  bucket : Bucket
  segments : List Segment
deriving DecidableEq

namespace Path

/-- The root of a bucket. -/
def root (bucket : Bucket) : Path := ⟨bucket, []⟩

/-- Whether a path is the root of its bucket. -/
def isRoot (p : Path) : Bool := p.segments.isEmpty

/-- The number of segments below the bucket. -/
def depth (p : Path) : Nat := p.segments.length

/-- The segments as texts. -/
def names (p : Path) : List String := p.segments.map Subtype.val

/-- The last segment, and the empty text for a root. -/
def name (p : Path) : String := (p.segments.getLast?.map Subtype.val).getD ""

/-- The path without its last segment; a root has none. -/
def parent? (p : Path) : Option Path :=
  if p.segments = [] then none else some ⟨p.bucket, p.segments.dropLast⟩

/-- The path one segment below. -/
def below (p : Path) (s : Segment) : Path := ⟨p.bucket, p.segments ++ [s]⟩

/-- The path of the given name directly below, if the name is a segment. -/
def child? (p : Path) (name : String) : Option Path := (Segment.ofString? name).map p.below

/-- Whether `p` is `q` or lies beneath it. -/
def isUnder (p q : Path) : Bool := p.bucket = q.bucket && q.segments.isPrefixOf p.segments

@[ext] theorem ext {p q : Path} (hb : p.bucket = q.bucket) (hs : p.segments = q.segments) :
    p = q := by
  cases p; cases q; cases hb; cases hs; rfl

@[simp] theorem isRoot_root (b : Bucket) : (root b).isRoot = true := rfl

theorem isRoot_iff {p : Path} : p.isRoot = true ↔ p.segments = [] := by
  simp [isRoot]

@[simp] theorem isRoot_below (p : Path) (s : Segment) : (p.below s).isRoot = false := by
  simp [isRoot, below]

@[simp] theorem depth_below (p : Path) (s : Segment) : (p.below s).depth = p.depth + 1 := by
  simp [depth, below]

@[simp] theorem name_below (p : Path) (s : Segment) : (p.below s).name = s.val := by
  simp [name, below]

@[simp] theorem parent?_below (p : Path) (s : Segment) : (p.below s).parent? = some p := by
  simp [parent?, below]

theorem parent?_eq_none_iff {p : Path} : p.parent? = none ↔ p.isRoot = true := by
  simp [parent?, isRoot]

/-- A path has the parent `q` exactly when it is `q` and one segment more. -/
theorem parent?_eq_some_iff {p q : Path} : p.parent? = some q ↔ ∃ s, p = q.below s := by
  constructor
  · intro h
    unfold parent? at h
    split at h
    · cases h
    · rename_i hs
      cases h
      refine ⟨p.segments.getLast hs, ext rfl ?_⟩
      simp [below, List.dropLast_concat_getLast hs]
  · rintro ⟨s, rfl⟩
    exact parent?_below q s

theorem depth_of_parent? {p q : Path} (h : p.parent? = some q) : p.depth = q.depth + 1 := by
  obtain ⟨s, rfl⟩ := parent?_eq_some_iff.1 h
  simp

/-- A child exists exactly for the names that are segments. -/
theorem child?_eq_some_iff {p q : Path} {n : String} :
    p.child? n = some q ↔ ∃ h : IsSegment n, q = p.below ⟨n, h⟩ := by
  unfold child? Segment.ofString?
  split <;> rename_i h <;> simp [h, eq_comm]

theorem isUnder_iff {p q : Path} :
    p.isUnder q = true ↔ p.bucket = q.bucket ∧ q.segments <+: p.segments := by
  simp [isUnder, List.isPrefixOf_iff_prefix]

/-! ## Order -/

/-- Paths are compared by bucket, then segment by segment, each by code points. -/
instance : Ord Path := ⟨compareLex (compareOn (·.bucket.val)) (compareOn names)⟩

instance instTransOrd : Std.TransOrd Path :=
  inferInstanceAs (Std.TransCmp (compareLex (compareOn (·.bucket.val)) (compareOn names)))

theorem names_injective {p q : Path} (h : p.names = q.names) : p.segments = q.segments :=
  (List.map_inj_right fun _ _ => Subtype.ext).1 h

instance instLawfulEqOrd : Std.LawfulEqOrd Path where
  eq_of_compare {p q} h := by
    obtain ⟨hb, hs⟩ := compareLex_eq_eq.1 h
    simp only [compareOn, Std.LawfulEqOrd.compare_eq_iff_eq] at hb hs
    exact ext (Subtype.ext hb) (names_injective hs)

/-- The order that puts shallower paths first, and paths of one depth in their own order. -/
def compareByDepth : Path → Path → Ordering := compareLex (compareOn depth) compare

instance instTransCmpByDepth : Std.TransCmp compareByDepth :=
  inferInstanceAs (Std.TransCmp (compareLex (compareOn depth) compare))

instance instLawfulEqCmpByDepth : Std.LawfulEqCmp compareByDepth where
  eq_of_compare h := Std.LawfulEqOrd.eq_of_compare (compareLex_eq_eq.1 h).2

/-- A bound on the depth, for recursions on the parent. -/
theorem depth_lt_of_parent? {p q : Path} (h : p.parent? = some q) : q.depth < p.depth := by
  have := depth_of_parent? h
  omega

/-- The ancestors of a path below the root of its bucket, nearest first. -/
def ancestors (p : Path) : List Path :=
  match _h : p.parent? with
  | none => []
  | some q => if q.isRoot then [] else q :: q.ancestors
termination_by p.depth
decreasing_by exact depth_lt_of_parent? _h

end Path

end TableTree
