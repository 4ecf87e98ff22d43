import Mathlib.Logic.Relation
import Mathlib.Order.Defs.Unbundled
import TableTree.Proofs.Path.Codec

/-!
# Three ways to be under a path

A path lies under another one if it has the bucket and the first segments of the other. This is the
case if the other is reached from it by going to the parent again and again, and it can be read off
the partitions of the two as well, if both end in a slash: then one is the beginning of the other.
Without the slash the partition of `s3a://b/a` would be a beginning of that of `s3a://b/ab`.

Results:

* `Path.isUnder_iff_reflTransGen`: above a path are its parent, the parent of that, and so on.
* `Path.parts_partition_append`: the parts of a partition with something behind it.
* `Path.isUnder_iff_exists_append`: the partitions of the paths above a path.
* `Path.isUnder_agrees`: the three ways agree, and they order the paths.
-/

namespace TableTree.Path

/-! ## Going to the parent -/

/-- The paths that a path lies under are reached from it by going to the parent. -/
theorem isUnder_iff_reflTransGen {a b : Path} :
    a.isUnder b = true ↔ Relation.ReflTransGen (fun p q => p.parent? = some q) a b := by
  constructor
  · intro h
    induction a using belowInduction with
    | root a hr =>
      rw [eq_of_isUnder_of_isRoot h hr]
    | below a s ih =>
      rcases below_isUnder_iff.1 h with rfl | h
      · exact .refl
      · exact .head (parent?_below a s) (ih h)
  · intro h
    induction h using Relation.ReflTransGen.head_induction_on with
    | refl => exact isUnder_refl b
    | head hparent _ ih =>
      obtain ⟨s, rfl⟩ := parent?_eq_some_iff.1 hparent
      exact isUnder_trans (below_isUnder _ s) ih

/-! ## Comparing partitions -/

theorem parts_append_slash (s t : List Char) : parts (s ++ '/' :: t) = parts s ++ parts t := by
  rw [parts, Text.fields_append_sep, List.map_append, parts, parts]

theorem parts_ne_nil (s : List Char) : parts s ≠ [] :=
  fun h => Text.fields_ne_nil '/' s (List.map_eq_nil_iff.1 h)

/-- A partition with a slash and something behind it has the bucket and the names for its first
parts, after the empty one before its first slash. -/
theorem parts_partition_append (p : Path) (t : String) :
    parts (p.partition ++ "/" ++ t).toList = "" :: p.bucket.val :: (p.names ++ parts t.toList) := by
  have hfree : ∀ name ∈ p.bucket.val :: p.names, '/' ∉ name.toList :=
    List.forall_mem_cons.2 ⟨p.bucket.property.2, p.not_mem_of_mem_names⟩
  have hlist : (p.partition ++ "/" ++ t).toList =
      [] ++ '/' :: (("/".intercalate (p.bucket.val :: p.names)).toList ++ '/' :: t.toList) := by
    simp [partition, String.toList_append]
  rw [hlist, parts_append_slash, parts_append_slash,
    parts_intercalate (List.cons_ne_nil _ _) hfree]
  rfl

/-- The partition of a path that goes on from another one goes on from the partition of that one. -/
theorem partition_append (bucket : Bucket) (segments more : List Segment) : ∃ t,
    (Path.mk bucket (segments ++ more)).partition ++ "/" =
      (Path.mk bucket segments).partition ++ "/" ++ t := by
  cases more with
  | nil => exact ⟨"", by rw [List.append_nil, String.append_empty]⟩
  | cons s more =>
    refine ⟨"/".intercalate ((s :: more).map Subtype.val) ++ "/", ?_⟩
    have hne : (s :: more).map Subtype.val ≠ [] := List.cons_ne_nil _ _
    have hnames : bucket.val :: (Path.mk bucket (segments ++ s :: more)).names =
        (bucket.val :: (Path.mk bucket segments).names) ++ (s :: more).map Subtype.val := by
      simp [names]
    rw [partition, hnames, String.intercalate_append_of_ne_nil (List.cons_ne_nil _ _) hne,
      partition]
    simp only [String.append_assoc]

/-- A path lies under another one if its partition, with a slash at the end, begins with that of the
other one. -/
theorem isUnder_iff_exists_append {a b : Path} :
    a.isUnder b = true ↔ ∃ t, a.partition ++ "/" = b.partition ++ "/" ++ t := by
  rw [isUnder_iff]
  constructor
  · rintro ⟨hbucket, more, hmore⟩
    have ha : a = ⟨b.bucket, b.segments ++ more⟩ := ext hbucket hmore.symm
    rw [ha]
    exact partition_append b.bucket b.segments more
  · rintro ⟨t, ht⟩
    have hparts := parts_partition_append b t
    have hself := parts_partition_append a ""
    rw [← ht] at hparts
    rw [String.append_empty, hparts, List.cons.injEq, List.cons.injEq] at hself
    obtain ⟨-, hbucket, hnames⟩ := hself
    refine ⟨(Subtype.ext hbucket).symm, ?_⟩
    -- the part behind the last slash is not one of the names
    have hdrop := congrArg List.dropLast hnames
    rw [List.dropLast_append_of_ne_nil (parts_ne_nil _),
      List.dropLast_append_of_ne_nil (parts_ne_nil _)] at hdrop
    have hprefix : b.names <+: a.names := ⟨_, hdrop.trans (List.append_nil _)⟩
    exact (List.prefix_map_iff_of_injective fun _ _ => Subtype.ext).1 hprefix

/-! ## The order -/

theorem isUnder_antisymm {p q : Path} (hp : p.isUnder q = true) (hq : q.isUnder p = true) : p = q :=
  eq_of_isUnder_of_depth_eq hp
    (Nat.le_antisymm (depth_le_of_isUnder hq) (depth_le_of_isUnder hp))

/-- Paths with the same parent, and roots, are equally deep. -/
theorem depth_eq_of_parent?_eq {p q : Path} (h : p.parent? = q.parent?) : p.depth = q.depth := by
  cases hp : p.parent? with
  | none =>
    have hroot := isRoot_iff.1 (parent?_eq_none_iff.1 hp)
    have hroot' := isRoot_iff.1 (parent?_eq_none_iff.1 (h.symm.trans hp))
    rw [depth, depth, hroot, hroot']
  | some r => rw [depth_of_parent? hp, depth_of_parent? (h.symm.trans hp)]

/-- **Being under a path.** A path lies under another one exactly if the other one is reached from it
by going to the parent any number of times, and exactly if its partition begins with that of the other
one when both end in a slash. This orders the paths, and of paths with the same parent, or of roots,
none lies under another one. -/
theorem isUnder_agrees (a b : Path) :
    (a.isUnder b = true ↔ Relation.ReflTransGen (fun p q => p.parent? = some q) a b) ∧
    (a.isUnder b = true ↔ ∃ t, a.partition ++ "/" = b.partition ++ "/" ++ t) ∧
    IsPartialOrder Path (fun p q => p.isUnder q = true) ∧
    (a.parent? = b.parent? → (a.isUnder b = true ↔ a = b)) := by
  refine ⟨isUnder_iff_reflTransGen, isUnder_iff_exists_append, ?_, fun hparent => ⟨fun h => ?_, ?_⟩⟩
  · exact { refl := isUnder_refl, trans := fun _ _ _ => isUnder_trans,
            antisymm := fun _ _ => isUnder_antisymm }
  · exact eq_of_isUnder_of_depth_eq h (depth_eq_of_parent?_eq hparent)
  · rintro rfl
    exact isUnder_refl a

end TableTree.Path
