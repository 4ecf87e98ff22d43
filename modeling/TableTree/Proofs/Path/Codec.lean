import TableTree.Path.Key
import TableTree.Proofs.Path.Ancestors

/-!
# Reading keys back

The partition of a path is read back as the bucket and the names of the path, so a key in it is read
back as the child that it names.

Results:

* `Path.parts_intercalate`, `Path.intercalate_parts`: a text and its parts make each other.
* `Key.path?_partition`: the keys of the partition of a path are its children.
* `Path.path?_of_key?`: the key of a path is read back as the path.
* `Path.key?_injective`: different paths have different keys.
* `Path.partition_injective`: different paths have different partitions.
* `Path.key_decodes`: which paths have a key, and what it tells of its path and of the path above.
-/

namespace TableTree

namespace Path

theorem isSegment_of_mem_names {p : Path} {name : String} (h : name ∈ p.names) : IsSegment name := by
  obtain ⟨s, -, rfl⟩ := List.mem_map.1 h
  exact s.property

theorem not_mem_of_mem_names (p : Path) : ∀ name ∈ p.names, '/' ∉ name.toList := by
  intro name hname
  exact (isSegment_of_mem_names hname).2.2.2

/-- Parts without slashes are the parts of the text that they make. -/
theorem parts_intercalate {names : List String} (hne : names ≠ [])
    (h : ∀ name ∈ names, '/' ∉ name.toList) : parts ("/".intercalate names).toList = names := by
  have hfree : ∀ f ∈ names.map String.toList, '/' ∉ f := by
    intro f hf
    obtain ⟨name, hname, rfl⟩ := List.mem_map.1 hf
    exact h name hname
  have hcut : Text.fields '/' ("/".intercalate names).toList = names.map String.toList := by
    rw [String.toList_intercalate]
    exact Text.fields_intercalate (by simpa using hne) hfree
  rw [parts, hcut, List.map_map]
  simp [Function.comp_def]

theorem not_mem_of_mem_parts {s : List Char} {part : String} (h : part ∈ parts s) :
    '/' ∉ part.toList := by
  obtain ⟨f, hf, rfl⟩ := List.mem_map.1 h
  rw [String.toList_ofList]
  exact Text.not_mem_of_mem_fields hf

/-- The parts of a text make the text. -/
theorem intercalate_parts (t : String) : "/".intercalate (parts t.toList) = t := by
  rw [← String.toList_inj, String.toList_intercalate, parts, List.map_map]
  simpa [Function.comp_def] using Text.intercalate_fields '/' t.toList

theorem toList_partition (p : Path) :
    p.partition.toList =
      '/' :: ['/'].intercalate ((p.bucket.val :: p.names).map String.toList) := by
  rw [partition, String.toList_append, String.toList_intercalate]
  rfl

end Path

/-- A key whose partition has a bucket and other parts behind a slash is that of a child of the path
that they make. -/
theorem Key.path?_slash {t : String} {bucket : Bucket} {rest : List String}
    (h : Path.parts t.toList = bucket.val :: rest) (child : String) :
    (Key.mk ("/" ++ t) child).path? = (Path.mk bucket (Path.normalise rest)).child? child := by
  have hslash : ("/" ++ t).toList = '/' :: t.toList := String.toList_append
  unfold path?
  simp only [hslash, h]
  rw [Bucket.ofString?_eq_some_iff.2 rfl]
  rfl

/-- A key in the partition of a path is the key of the child that it names. -/
theorem Key.path?_partition (p : Path) (child : String) :
    (Key.mk p.partition child).path? = p.child? child := by
  have hfree : ∀ name ∈ p.bucket.val :: p.names, '/' ∉ name.toList :=
    List.forall_mem_cons.2 ⟨p.bucket.property.2, p.not_mem_of_mem_names⟩
  have hparts := Path.parts_intercalate (List.cons_ne_nil _ _) hfree
  rw [Path.partition, path?_slash hparts child, p.normalise_names]

namespace Path

theorem path?_key_below (p : Path) (s : Segment) :
    (Key.mk p.partition s.val).path? = some (p.below s) := by
  rw [Key.path?_partition, child?_eq_some_iff]
  exact ⟨s.property, rfl⟩

/-- The key of a path is read back as the path. -/
theorem path?_of_key? {p : Path} {k : Key} (h : p.key? = some k) : k.path? = some p := by
  rcases p.isRoot_or_below with hr | ⟨q, s, rfl⟩
  · rw [key?_eq_none_iff.2 hr] at h
    cases h
  · rw [key?_below] at h
    cases h
    exact path?_key_below q s

/-- Different paths have different keys. -/
theorem key?_injective {p q : Path} {k : Key} (hp : p.key? = some k) (hq : q.key? = some k) :
    p = q :=
  Option.some.inj ((path?_of_key? hp).symm.trans (path?_of_key? hq))

/-- Different paths have different partitions. -/
theorem partition_injective {p q : Path} (h : p.partition = q.partition) : p = q := by
  have hs : IsSegment "a" := by decide
  have hp := path?_key_below p ⟨"a", hs⟩
  rw [h, path?_key_below q ⟨"a", hs⟩] at hp
  have := congrArg parent? (Option.some.inj hp)
  simpa using this.symm

theorem exists_key?_of_isRoot {p : Path} (h : p.isRoot = false) : ∃ k, p.key? = some k := by
  cases hk : p.key? with
  | none =>
    rw [key?_eq_none_iff.1 hk] at h
    cases h
  | some k => exact ⟨k, rfl⟩

theorem key_eq_ok_iff {p : Path} {k : Key} : p.key = .ok k ↔ p.key? = some k := by
  unfold key
  cases p.key? <;> simp

theorem key_of_key? {p : Path} {k : Key} (h : p.key? = some k) : p.key = .ok k :=
  key_eq_ok_iff.2 h

theorem key_eq_error_iff {p : Path} : p.key = .error (.rootKey p) ↔ p.isRoot = true := by
  rw [← key?_eq_none_iff]
  unfold key
  cases p.key? <;> simp

/-- **Keys of paths.** A root has no key. Any other path has one, from which the path is read back; it
is the key of no other path, and its partition is that of the path's parent and of no other path. -/
theorem key_decodes (p q : Path) :
    (p.isRoot = true ↔ p.key = .error (.rootKey p)) ∧
    (p.isRoot = false ↔ ∃ k, p.key = .ok k ∧ k.path? = some p ∧ (q.key = .ok k ↔ q = p) ∧
      (k.parent = q.partition ↔ p.parent? = some q)) := by
  refine ⟨key_eq_error_iff.symm, fun hroot => ?_, ?_⟩
  · obtain hr | ⟨above, s, rfl⟩ := p.isRoot_or_below
    · rw [hr] at hroot
      cases hroot
    · have hkey := key?_below above s
      refine ⟨⟨above.partition, s.val⟩, key_of_key? hkey, path?_of_key? hkey, ?_, ?_⟩
      · rw [key_eq_ok_iff]
        constructor
        · intro hq
          exact key?_injective hq hkey
        · rintro rfl
          exact hkey
      · rw [parent?_below, Option.some.injEq]
        exact ⟨partition_injective, congrArg partition⟩
  · rintro ⟨k, hk, -⟩
    rw [← Bool.not_eq_true, ← key_eq_error_iff, hk]
    nofun

end Path

end TableTree
