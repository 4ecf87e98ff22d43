import TableTree.Proofs.Path.Grammar

/-!
# Keys that stand for one path

The partition in the key of a path is the bucket and the names of the path above, with slashes between.
A key is read by reducing the parts of its partition, so a partition with an empty part, a part `.` or
a part `..` is read as well, and then the key is not the one of the path that it is read as. Of all the
keys that are read as a path, its own key is the one whose parts are names already.

Results:

* `Key.path?_eq_some_iff`: the keys that are read as a path.
* `Key.IsReduced`, `Path.key_eq_ok_iff_isReduced`: which of them is the key of the path.
* `Path.exists_alias`: there is always another one.
* `Key.decodes_exactly`: which keys are read, as what, and which is the key of what is read.
* `Sample.aliased_key`: two keys that are read as one path.
-/

namespace TableTree

namespace Path

theorem child?_eq_some_iff_parent? {p q : Path} {name : String} :
    q.child? name = some p ↔ p.parent? = some q ∧ p.name = name := by
  rw [child?_eq_some_iff]
  constructor
  · rintro ⟨h, rfl⟩
    exact ⟨parent?_below q _, name_below q _⟩
  · rintro ⟨hparent, rfl⟩
    obtain ⟨s, rfl⟩ := parent?_eq_some_iff.1 hparent
    rw [name_below]
    exact ⟨s.property, rfl⟩

/-- Names reduce to themselves. -/
theorem reduces_self {names : List String} (h : ∀ name ∈ names, IsSegment name) :
    Reduces names names := by
  induction names using List.reverseRecOn with
  | nil => exact .nil
  | append_singleton names name ih =>
    simp only [List.mem_append, List.mem_singleton] at h
    have hname := h name (.inr rfl)
    exact (ih fun x hx => h x (.inl hx)).keep ⟨hname.1, hname.2.1, hname.2.2.1⟩

/-- Two lists of parts without slashes that make the same text are the same. -/
theorem intercalate_injective {bucket bucket' : String} {parts parts' : List String}
    (hb : '/' ∉ bucket.toList) (hb' : '/' ∉ bucket'.toList)
    (h : ∀ part ∈ parts, '/' ∉ part.toList) (h' : ∀ part ∈ parts', '/' ∉ part.toList)
    (heq : "/".intercalate (bucket :: parts) = "/".intercalate (bucket' :: parts')) :
    bucket = bucket' ∧ parts = parts' := by
  have hcut := parts_intercalate (List.cons_ne_nil _ _) (List.forall_mem_cons.2 ⟨hb, h⟩)
  have hcut' := parts_intercalate (List.cons_ne_nil _ _) (List.forall_mem_cons.2 ⟨hb', h'⟩)
  rw [heq, hcut'] at hcut
  exact ⟨(List.cons.inj hcut).1.symm, (List.cons.inj hcut).2.symm⟩

end Path

namespace Key

variable {k : Key} {p : Path}

/-- Only a key whose partition has a bucket behind a slash is read. -/
theorem exists_parts_of_path? (h : k.path? = some p) :
    ∃ (t : String) (bucket : Bucket) (rest : List String),
      k.parent = "/" ++ t ∧ Path.parts t.toList = bucket.val :: rest := by
  unfold path? at h
  split at h
  · rename_i chars hparent
    split at h
    · cases h
    · rename_i name rest hparts
      obtain ⟨bucket, hbucket, -⟩ := Option.bind_eq_some_iff.1 h
      refine ⟨String.ofList chars, bucket, rest, ?_, ?_⟩
      · rw [← String.toList_inj, hparent]
        simp
      · rw [String.toList_ofList, hparts, Bucket.ofString?_eq_some_iff.1 hbucket]
  · cases h

/-- A key is read as a path if its partition is a slash and a text that spells the path above, and
its child is the name of the path. -/
theorem path?_eq_some_iff : k.path? = some p ↔
    ∃ q t, p.parent? = some q ∧ p.name = k.child ∧ k.parent = "/" ++ t ∧ q.IsSpelled t := by
  constructor
  · intro h
    obtain ⟨t, bucket, rest, hparent, hparts⟩ := exists_parts_of_path? h
    have hread := path?_slash hparts k.child
    rw [← hparent] at hread
    obtain ⟨habove, hname⟩ := Path.child?_eq_some_iff_parent?.1 (hread.symm.trans h)
    exact ⟨_, t, habove, hname, hparent, Path.isSpelled_iff.2 ⟨rest, hparts, rfl⟩⟩
  · rintro ⟨q, t, habove, hname, hparent, hspelled⟩
    obtain ⟨rest, hparts, hn⟩ := Path.isSpelled_iff.1 hspelled
    have hread := path?_slash hparts k.child
    rw [← hparent, hn] at hread
    rw [hread]
    exact Path.child?_eq_some_iff_parent?.2 ⟨habove, hname⟩

/-- The partition of a key has names behind its bucket, and nothing that reading would leave out. -/
def IsReduced (k : Key) : Prop :=
  ∃ bucket names, '/' ∉ bucket.toList ∧ (∀ name ∈ names, IsSegment name) ∧
    k.parent = "/" ++ "/".intercalate (bucket :: names)

end Key

namespace Path

variable {k : Key} {p : Path}

/-- Of the keys that are read as a path, the reduced one is its key. -/
theorem key_eq_ok_iff_isReduced : p.key = .ok k ↔ k.path? = some p ∧ k.IsReduced := by
  rw [key_eq_ok_iff]
  constructor
  · intro hkey
    refine ⟨path?_of_key? hkey, ?_⟩
    obtain ⟨q, -, rfl⟩ := Option.map_eq_some_iff.1 hkey
    exact ⟨q.bucket.val, q.names, q.bucket.property.2, fun _ => isSegment_of_mem_names, rfl⟩
  · rintro ⟨hread, bucket, names, hbucket, hnames, hparent⟩
    obtain ⟨q, t, habove, hname, ht, parts, hparts, hreduces, rfl⟩ := Key.path?_eq_some_iff.1 hread
    have hfree : ∀ name ∈ names, '/' ∉ name.toList := fun n hn => (hnames n hn).2.2.2
    have htext := (String.append_right_inj _).1 (ht.symm.trans hparent)
    obtain ⟨rfl, rfl⟩ := intercalate_injective q.bucket.property.2 hbucket hparts hfree htext
    have hself : q.names = parts :=
      (hreduces.eq_normalise hparts).trans ((reduces_self hnames).eq_normalise hparts).symm
    rw [key?, habove, Option.map_some, Path.partition, hself, hname, ← hparent]

/-- A path that has a key has another one that is read as the path. -/
theorem exists_alias (h : p.isRoot = false) : ∃ k : Key, k.path? = some p ∧ ¬ k.IsReduced := by
  obtain hr | ⟨q, s, rfl⟩ := p.isRoot_or_below
  · rw [hr] at h
    cases h
  · have hfree : ∀ part ∈ q.names ++ [""], '/' ∉ part.toList := by
      intro part hpart
      rcases List.mem_append.1 hpart with hpart | hpart
      · exact q.not_mem_of_mem_names part hpart
      · obtain rfl := List.mem_singleton.1 hpart
        simp
    refine ⟨⟨"/" ++ "/".intercalate (q.bucket.val :: (q.names ++ [""])), s.val⟩, ?_, ?_⟩
    · refine Key.path?_eq_some_iff.2 ⟨q, _, parent?_below q s, name_below q s, rfl, _, hfree, ?_, rfl⟩
      exact (reduces_self fun _ => isSegment_of_mem_names).skip (.inl rfl)
    · rintro ⟨bucket, names, hbucket, hnames, hparent⟩
      have htext := (String.append_right_inj _).1 hparent
      obtain ⟨-, hparts⟩ := intercalate_injective q.bucket.property.2 hbucket hfree
        (fun n hn => (hnames n hn).2.2.2) htext
      have hempty : IsSegment "" := hnames "" (hparts ▸ by simp)
      exact hempty.1 rfl

end Path

/-- **Reading keys.** A key is read as a path exactly if its child is the name of the path and its
partition is a slash and any text that spells the path above. The key of the path is the one of these
keys that has names for parts, and every path that has a key has others of these. -/
theorem Key.decodes_exactly (k : Key) (p : Path) :
    (k.path? = some p ↔
      ∃ q t, p.parent? = some q ∧ p.name = k.child ∧ k.parent = "/" ++ t ∧ q.IsSpelled t) ∧
    (p.key = .ok k ↔ k.path? = some p ∧ k.IsReduced) ∧
    (p.isRoot = false ↔ ∃ other : Key, other.path? = some p ∧ p.key ≠ .ok other) := by
  refine ⟨path?_eq_some_iff, Path.key_eq_ok_iff_isReduced, fun h => ?_, ?_⟩
  · obtain ⟨other, hread, hreduced⟩ := Path.exists_alias h
    exact ⟨other, hread, fun hkey => hreduced (Path.key_eq_ok_iff_isReduced.1 hkey).2⟩
  · rintro ⟨other, hread, -⟩
    obtain ⟨q, t, habove, -⟩ := path?_eq_some_iff.1 hread
    obtain ⟨s, rfl⟩ := Path.parent?_eq_some_iff.1 habove
    exact Path.isRoot_below q s

namespace Sample

/-- The path `s3a://u/v/w`. -/
def aliased : Path := ⟨⟨"u", by decide⟩, [⟨"v", by decide⟩, ⟨"w", by decide⟩]⟩

/-- A key with an empty part in its partition is read as a path whose key is another one. -/
theorem aliased_key : (Key.mk "/u//v" "w").path? = some aliased ∧
    aliased.key = .ok (Key.mk "/u/v" "w") ∧ Key.mk "/u//v" "w" ≠ Key.mk "/u/v" "w" := by
  decide

end Sample

end TableTree
