import TableTree.Proofs.DistinctWrites
import TableTree.Proofs.Runs

/-!
# The completion of a list of entries

A list of entries with all ancestors of its paths is determined by which entry is the last of each
path. It is sorted and has one entry for each path, so nothing of the order of the given list is left
in it, and there is nothing to add to it.

Results:

* `Path.compareByDepth_eq_lt_iff`: the order by depth.
* `Entry.last?`: the last entry of a path.
* `Entry.getElem?_withAncestors`: what the list is made of.
* `Entry.withAncestors_congr`: lists with the same last entries and the same paths are completed alike.
* `Entry.withAncestors_characterised`: the paths, entries and order of the completed list.
-/

namespace TableTree

/-- Shallower paths come first, and paths of one depth come in their own order. -/
theorem Path.compareByDepth_eq_lt_iff {p q : Path} :
    compareByDepth p q = .lt ↔ p.depth < q.depth ∨ p.depth = q.depth ∧ compare p q = .lt := by
  unfold compareByDepth compareLex compareOn
  rw [Ordering.then_eq_lt, Nat.compare_eq_lt, Nat.compare_eq_eq]

namespace Entry

variable {owner : String} {p : Path}

/-! ## The last entry of a path -/

/-- The last entry of a path in a list. -/
def last? (es : List Entry) (p : Path) : Option Entry := es.reverse.find? (·.path = p)

@[simp] theorem last?_nil (p : Path) : last? [] p = none := rfl

theorem last?_cons (e : Entry) (es : List Entry) (p : Path) :
    last? (e :: es) p = (last? es p).or (if e.path = p then some e else none) := by
  rw [last?, List.reverse_cons, List.find?_append, ← last?]
  by_cases h : e.path = p
  · simp [h]
  · simp [h]

theorem of_last?_eq_some {es : List Entry} {e : Entry} (h : last? es p = some e) :
    e ∈ es ∧ e.path = p :=
  ⟨List.mem_reverse.1 (List.mem_of_find?_eq_some h), by simpa using List.find?_some h⟩

theorem last?_eq_none_iff {es : List Entry} : last? es p = none ↔ ∀ e ∈ es, e.path ≠ p := by
  simp [last?]

/-- Where each path has one entry, this is the last of it. -/
theorem last?_of_pairwise {es : List Entry} (hes : es.Pairwise fun d e => d.path ≠ e.path)
    {e : Entry} (he : e ∈ es) : last? es e.path = some e := by
  induction es with
  | nil => exact absurd he List.not_mem_nil
  | cons d es ih =>
    obtain ⟨hd, hes⟩ := List.pairwise_cons.1 hes
    rw [last?_cons]
    rcases List.mem_cons.1 he with rfl | he
    · rw [last?_eq_none_iff.2 fun x hx => (hd x hx).symm, if_pos rfl, Option.none_or]
    · rw [ih hes he, Option.some_or]

theorem last?_eq_some_iff_of_pairwise {es : List Entry}
    (hes : es.Pairwise fun d e => d.path ≠ e.path) {e : Entry} :
    last? es p = some e ↔ e ∈ es ∧ e.path = p := by
  refine ⟨of_last?_eq_some, ?_⟩
  rintro ⟨he, rfl⟩
  exact last?_of_pairwise hes he

/-- Where each path has one entry, the order does not matter. -/
theorem last?_of_perm {es es' : List Entry} (h : es.Perm es')
    (hes : es.Pairwise fun d e => d.path ≠ e.path) : last? es' p = last? es p := by
  have hes' : es'.Pairwise fun d e => d.path ≠ e.path := hes.perm h fun hne => hne.symm
  ext e
  rw [last?_eq_some_iff_of_pairwise hes', last?_eq_some_iff_of_pairwise hes, h.mem_iff]

/-- Where each path has one entry, this is what a path selects. -/
theorem filter_path_of_pairwise {es : List Entry} (hes : es.Pairwise fun d e => d.path ≠ e.path)
    (p : Path) : es.filter (·.path = p) = (last? es p).toList := by
  induction es with
  | nil => rfl
  | cons d es ih =>
    obtain ⟨hd, hes⟩ := List.pairwise_cons.1 hes
    rw [List.filter_cons, ih hes, last?_cons]
    by_cases h : d.path = p
    · rw [last?_eq_none_iff.2 fun x hx hp => hd x hx (h.trans hp.symm)]
      simp [h]
    · simp [h]

/-! ## What the list is made of -/

/-- What the map of a list holds for a path that is no root: the last entry of the path, or what was
there before, or a stand-in for an ancestor. -/
theorem getElem?_foldl_addWithAncestors {known : ByDepth}
    (hclosed : UpClosed fun p => known[p]?.isSome) (es : List Entry) (hp : p.isRoot = false) :
    (es.foldl (addWithAncestors owner) known)[p]? = (last? es p).or (known[p]?.or
      (if ∃ e ∈ es, p ∈ e.path.ancestors then some (standIn p owner) else none)) := by
  induction es generalizing known with
  | nil => simp
  | cons e es ih =>
    rw [List.foldl_cons, ih (upClosed_addWithAncestors e hclosed), last?_cons, Option.or_assoc]
    congr 1
    cases he : e.path.isRoot with
    | true =>
      have hne : e.path ≠ p := by
        rintro rfl
        exact Bool.false_ne_true (hp.symm.trans he)
      simp [addWithAncestors, he, hne, Path.ancestors_of_isRoot he]
    | false =>
      rw [getElem?_addWithAncestors he hclosed]
      by_cases hpath : e.path = p
      · rw [if_pos hpath, if_pos hpath, Option.some_or, Option.some_or]
      · rw [if_neg hpath, if_neg hpath, Option.none_or, Option.or_assoc]
        by_cases hmem : p ∈ e.path.ancestors
        · simp [hmem]
        · simp [hmem]

/-- Whether a list of entries calls for a path: one that is no root is at the path or below it. -/
def Spans (es : List Entry) (p : Path) : Prop :=
  ∃ e ∈ es, e.path.isRoot = false ∧ (p = e.path ∨ p ∈ e.path.ancestors)

instance (es : List Entry) (p : Path) : Decidable (Spans es p) :=
  inferInstanceAs (Decidable (∃ e ∈ es, _))

theorem Spans.isRoot {es : List Entry} (h : Spans es p) : p.isRoot = false := by
  obtain ⟨e, -, hr, rfl | hp⟩ := h
  · exact hr
  · exact Path.isRoot_of_mem_ancestors hp

/-- The paths that are called for are those with an entry and the ancestors of these. -/
theorem spans_iff_of_isRoot {es : List Entry} (hp : p.isRoot = false) :
    Spans es p ↔ (last? es p).isSome ∨ ∃ e ∈ es, p ∈ e.path.ancestors := by
  have hlast : (last? es p).isSome ↔ ∃ e ∈ es, e.path = p := by
    rw [Option.isSome_iff_ne_none, ne_eq, last?_eq_none_iff]
    simp
  rw [hlast]
  constructor
  · rintro ⟨e, he, -, rfl | hm⟩
    · exact .inl ⟨e, he, rfl⟩
    · exact .inr ⟨e, he, hm⟩
  · rintro (⟨e, he, rfl⟩ | ⟨e, he, hm⟩)
    · exact ⟨e, he, hp, .inl rfl⟩
    · exact ⟨e, he, Path.isRoot_of_mem_ancestors_of hm, .inr hm⟩

/-- The map of a list holds, for each path that is called for, its last entry, or else a stand-in. -/
theorem getElem?_withAncestors (es : List Entry) (p : Path) :
    (es.foldl (addWithAncestors owner) ∅)[p]? =
      if Spans es p then some ((last? es p).getD (standIn p owner)) else none := by
  cases hr : p.isRoot with
  | true =>
    rw [if_neg fun h => Bool.false_ne_true (h.isRoot.symm.trans hr)]
    refine Option.eq_none_iff_forall_ne_some.2 fun d hd => ?_
    exact Bool.false_ne_true ((of_getElem?_withAncestors hd).1.symm.trans hr)
  | false =>
    rw [getElem?_foldl_addWithAncestors upClosed_empty es hr]
    simp only [spans_iff_of_isRoot hr]
    cases last? es p with
    | some e => simp
    | none => simp

/-- The list has for each path what the map has. -/
theorem last?_withAncestors (es : List Entry) (p : Path) :
    last? (withAncestors es owner) p =
      if Spans es p then some ((last? es p).getD (standIn p owner)) else none := by
  rw [← getElem?_withAncestors]
  ext d
  rw [last?_eq_some_iff_of_pairwise (pairwise_path_withAncestors es), withAncestors, mem_values_iff]
  constructor
  · rintro ⟨⟨q, hq⟩, rfl⟩
    rw [(of_getElem?_withAncestors hq).2.1, hq]
  · exact fun hd => ⟨⟨p, hd⟩, (of_getElem?_withAncestors hd).2.1⟩

/-- Lists that call for the same paths, with the same last entry of each, are completed alike. -/
theorem withAncestors_congr {es es' : List Entry} (hspans : ∀ p, Spans es' p ↔ Spans es p)
    (hlast : ∀ p, last? es' p = last? es p) : withAncestors es' owner = withAncestors es owner := by
  refine congrArg Std.ExtTreeMap.values (Std.ExtTreeMap.ext_getElem? fun p => ?_)
  rw [getElem?_withAncestors, getElem?_withAncestors, hlast]
  simp only [hspans]

theorem spans_withAncestors_iff {es : List Entry} :
    Spans (withAncestors es owner) p ↔ Spans es p := by
  constructor
  · rintro ⟨d, hd, -, rfl | hp⟩
    · exact exists_mem_withAncestors.1 ⟨d, hd, rfl⟩
    · exact exists_mem_withAncestors.1 (upClosed_withAncestors es d.path ⟨d, hd, rfl⟩ p hp)
  · intro h
    obtain ⟨d, hd, rfl⟩ : ∃ d ∈ withAncestors es owner, d.path = p := exists_mem_withAncestors.2 h
    exact ⟨d, hd, h.isRoot, .inl rfl⟩

/-- There is nothing to add to a list that has all ancestors. -/
theorem withAncestors_withAncestors (es : List Entry) (owner owner' : String) :
    withAncestors (withAncestors es owner) owner' = withAncestors es owner := by
  refine congrArg Std.ExtTreeMap.values (Std.ExtTreeMap.ext_getElem? fun p => ?_)
  rw [getElem?_withAncestors, getElem?_withAncestors, last?_withAncestors]
  simp only [spans_withAncestors_iff]
  by_cases h : Spans es p
  · rw [if_pos h, if_pos h, Option.getD_some]
  · rw [if_neg h, if_neg h]

/-- **The completion of a list.** Whatever list is given, with whatever entries twice, at roots, in
several buckets or deleted, its completion has one entry for each path of the list that is no root,
and for each ancestor of such a path: the last that was given, or else a live directory that is known
to be occupied. The entries are in strict order, by depth and then by path, so ancestors come before
what is below them. The order of entries of different paths does not matter, and completing a
completed list changes nothing. -/
theorem withAncestors_characterised (es : List Entry) (owner : String) :
    (∀ p, (withAncestors es owner).filter (·.path = p) =
      if ∃ e ∈ es, e.path.isRoot = false ∧ (p = e.path ∨ p ∈ e.path.ancestors) then
        [(last? es p).getD { directory p owner with emptiness := .occupied }]
      else []) ∧
    ((withAncestors es owner).Pairwise fun d e => d.path.depth < e.path.depth ∨
      d.path.depth = e.path.depth ∧ compare d.path e.path = .lt) ∧
    (∀ (i j : Nat) (hi : i < (withAncestors es owner).length)
      (hj : j < (withAncestors es owner).length),
      (withAncestors es owner)[i].path ∈ (withAncestors es owner)[j].path.ancestors → i < j) ∧
    (∀ es' : List Entry, es.Perm es' → (es.map Entry.path).Nodup →
      withAncestors es' owner = withAncestors es owner) ∧
    ∀ owner', withAncestors (withAncestors es owner) owner' = withAncestors es owner := by
  have hsorted : (withAncestors es owner).Pairwise fun d e =>
      Path.compareByDepth d.path e.path = .lt := pairwise_compareByDepth_withAncestors es
  refine ⟨fun p => ?_, hsorted.imp Path.compareByDepth_eq_lt_iff.1, fun i j hi hj hm => ?_,
    fun es' hperm hnodup => ?_, withAncestors_withAncestors es owner⟩
  · rw [filter_path_of_pairwise (pairwise_path_withAncestors es), last?_withAncestors]
    by_cases h : Spans es p
    · rw [if_pos h]
      exact (if_pos h).symm
    · rw [if_neg h]
      exact (if_neg h).symm
  · -- an ancestor is shallower
    refine Nat.lt_of_not_le fun hle => ?_
    have hlt := Path.depth_lt_of_mem_ancestors hm
    rcases Nat.lt_or_eq_of_le hle with hlt' | rfl
    · have := Path.depth_le_of_compareByDepth (List.pairwise_iff_getElem.1 hsorted j i hj hi hlt')
      omega
    · omega
  · have hpaths := List.pairwise_map.1 hnodup
    refine withAncestors_congr (fun p => ?_) fun p => last?_of_perm hperm hpaths
    simp only [Spans, hperm.mem_iff]

end Entry

namespace Sample

/-- A path in another bucket. -/
def foreignFile : Path :=
  ((Path.root ⟨"c", by decide⟩).below ⟨"h", by decide⟩).below ⟨"k", by decide⟩

/-- A file before its directory, which is deleted, a root, and a file in another bucket. -/
def mixed : List Entry :=
  [.file file 1 2 3 "o", .directory (Path.root directory.bucket) "o", .tombstone directory 7,
    .file foreignFile 4 5 6 "o"]

/-- Given backwards, they are completed alike: the deleted directory stays what it is, and the other
file comes with its directory. -/
theorem withAncestors_characterised_mixed :
    mixed.Perm mixed.reverse ∧ (mixed.map Entry.path).Nodup ∧
    Entry.withAncestors mixed.reverse "me" = Entry.withAncestors mixed "me" ∧
    (Entry.withAncestors mixed "me").filter (·.path = directory) = [.tombstone directory 7] ∧
    ∀ q ∈ foreignFile.ancestors, (Entry.withAncestors mixed "me").filter (·.path = q) =
      [{ Entry.directory q "me" with emptiness := .occupied }] := by
  obtain ⟨hpaths, -, -, horder, -⟩ := Entry.withAncestors_characterised mixed "me"
  have hperm : mixed.Perm mixed.reverse := mixed.reverse_perm.symm
  have hnodup : (mixed.map Entry.path).Nodup := by decide +kernel
  refine ⟨hperm, hnodup, horder mixed.reverse hperm hnodup, ?_, fun q hq => ?_⟩
  · rw [hpaths directory]
    decide +kernel
  · rw [hpaths q]
    revert q
    decide +kernel

end Sample

end TableTree
