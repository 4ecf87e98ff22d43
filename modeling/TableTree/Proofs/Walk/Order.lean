import TableTree.Proofs.Readings
import TableTree.Proofs.Tree.Completion

/-!
# The order of a walk

The children of a path are listed in the order of their names, and a walk visits the children of
one path before those of a later one. So the paths of a walk are in the order by depth, and none of
them comes twice.

Results:

* `Path.compare_below_lt_of_lt`, `Path.compare_below_lt_iff`: the order of paths with one segment
  more.
* `Entry.IsSorted`, `Entry.IsSorted.visit`: the order of a queue, and what a visit does to it.
* `Items.pairwise_compareByDepth_walk`: a walk visits paths in the order by depth.
-/

namespace TableTree

/-! ## Paths with one segment more -/

namespace Path

/-- Of two lists of one length with one element more each, the one with the smaller list in front is
the smaller one. -/
theorem compareLex_concat_lt {α : Type} {cmp : α → α → Ordering} {xs ys : List α} (x y : α)
    (hlength : xs.length = ys.length) (h : List.compareLex cmp xs ys = .lt) :
    List.compareLex cmp (xs ++ [x]) (ys ++ [y]) = .lt := by
  induction xs generalizing ys with
  | nil =>
    obtain rfl := List.eq_nil_of_length_eq_zero hlength.symm
    cases h
  | cons a xs ih =>
    cases ys with
    | nil => cases hlength
    | cons b ys =>
      rw [List.compareLex_cons_cons, Ordering.then_eq_lt] at h
      rw [List.cons_append, List.cons_append, List.compareLex_cons_cons, Ordering.then_eq_lt]
      exact h.imp_right fun ⟨hab, hxs⟩ => ⟨hab, ih (Nat.succ.inj hlength) hxs⟩

/-- One list with one element more, and the same with another one. -/
theorem compareLex_concat {α : Type} {cmp : α → α → Ordering} [Std.ReflCmp cmp] (xs : List α)
    (x y : α) : List.compareLex cmp (xs ++ [x]) (xs ++ [y]) = cmp x y := by
  induction xs with
  | nil =>
    rw [List.nil_append, List.nil_append, List.compareLex_cons_cons, List.compareLex_nil_nil,
      Ordering.then_eq]
  | cons a xs ih =>
    have hself : cmp a a = .eq := Std.ReflCmp.compare_self
    rw [List.cons_append, List.cons_append, List.compareLex_cons_cons, ih, hself, Ordering.eq_then]

theorem compare_eq_lt_iff {p q : Path} : compare p q = .lt ↔
    p.bucket.val < q.bucket.val ∨ p.bucket = q.bucket ∧ compare p.names q.names = .lt := by
  have hbucket : compare p.bucket.val q.bucket.val = .lt ↔ p.bucket.val < q.bucket.val :=
    compareOfLessAndEq_eq_lt
  show (compare p.bucket.val q.bucket.val).then (compare p.names q.names) = .lt ↔ _
  rw [Ordering.then_eq_lt, hbucket, Std.LawfulEqOrd.compare_eq_iff_eq, Subtype.ext_iff]

theorem names_below (p : Path) (s : Segment) : (p.below s).names = p.names ++ [s.val] := by
  simp [names, below]

/-- What lies directly below a path comes before what lies directly below a later path of the same
depth. -/
theorem compare_below_lt_of_lt {p q : Path} (s s' : Segment) (hdepth : p.depth = q.depth)
    (h : compare p q = .lt) : compare (p.below s) (q.below s') = .lt := by
  rw [compare_eq_lt_iff] at h ⊢
  refine h.imp_right fun ⟨hbucket, hnames⟩ => ⟨hbucket, ?_⟩
  have hlength : p.names.length = q.names.length := by
    simpa [names, depth] using hdepth
  rw [List.compare_eq_compareLex] at hnames ⊢
  rw [names_below, names_below]
  exact compareLex_concat_lt s.val s'.val hlength hnames

/-- Paths directly below one path are in the order of their names. -/
theorem compare_below_lt_iff {p : Path} {s s' : Segment} :
    compare (p.below s) (p.below s') = .lt ↔ s.val < s'.val := by
  have hself : ¬ p.bucket.val < p.bucket.val := String.lt_irrefl _
  have hname : compare s.val s'.val = .lt ↔ s.val < s'.val := compareOfLessAndEq_eq_lt
  have hnames : compare (p.below s).names (p.below s').names = compare s.val s'.val := by
    rw [names_below, names_below, List.compare_eq_compareLex, compareLex_concat]
  rw [compare_eq_lt_iff, hnames, hname]
  constructor
  · rintro (h | ⟨-, h⟩)
    · exact absurd h hself
    · exact h
  · exact fun h => .inr ⟨rfl, h⟩

end Path

/-! ## Queues in order -/

namespace Entry

/-- Whether one entry comes before another in the order by depth. -/
def Precedes (d e : Entry) : Prop := Path.compareByDepth d.path e.path = .lt

theorem Precedes.trans {c d e : Entry} (h : Precedes c d) (h' : Precedes d e) : Precedes c e :=
  Std.TransCmp.lt_trans h h'

theorem precedes_of_depth_lt {d e : Entry} (h : d.path.depth < e.path.depth) : Precedes d e :=
  Path.compareByDepth_eq_lt_iff.2 (.inl h)

theorem Precedes.compare_eq {d e : Entry} (h : Precedes d e)
    (hdepth : d.path.depth = e.path.depth) : compare d.path e.path = .lt :=
  ((Path.compareByDepth_eq_lt_iff.1 h).resolve_left (by omega)).2

/-- A queue in the order by depth, whose deeper entries lie directly below paths that come before
the other entries. -/
structure IsSorted (queue : List Entry) : Prop where
  sorted : queue.Pairwise Precedes
  deeper : ∀ d ∈ queue, ∀ c ∈ queue, c.path.depth = d.path.depth + 1 →
    ∃ (p : Path) (s : Segment), c.path = p.below s ∧ compare p d.path = .lt

theorem isSorted_singleton (e : Entry) : IsSorted [e] where
  sorted := List.pairwise_singleton ..
  deeper := by
    intro d hd c hc h
    rw [List.mem_singleton.1 hd, List.mem_singleton.1 hc] at h
    omega

variable {e : Entry} {queue cs : List Entry}

/-- What comes after a visit comes after the entry that is visited. -/
theorem IsSorted.precedes_of_mem (h : IsSorted (e :: queue)) (hcs : ChildrenOf e.path cs)
    {d : Entry} (hd : d ∈ queue ++ cs) : Precedes e d := by
  rcases List.mem_append.1 hd with hd | hd
  · exact List.rel_of_pairwise_cons h.sorted hd
  · refine precedes_of_depth_lt ?_
    rw [hcs.depth_eq hd]
    omega

/-- A queue is still in order after a visit to its front whose children are in order. -/
theorem IsSorted.visit (h : IsSorted (e :: queue)) (hqueue : IsQueue (e :: queue))
    (hcs : ChildrenOf e.path cs) (hsorted : cs.Pairwise Precedes) : IsSorted (queue ++ cs) where
  sorted := by
    refine List.pairwise_append.2 ⟨(List.pairwise_cons.1 h.sorted).2, hsorted, fun d hd c hc => ?_⟩
    have hspan := hqueue.span e List.mem_cons_self d (List.mem_cons_of_mem e hd)
    have hdepth := hcs.depth_eq hc
    by_cases hd' : d.path.depth = e.path.depth + 1
    · -- `d` is a child of an earlier path, `c` is a child of the front
      obtain ⟨p, s, hp, hlt⟩ := h.deeper e List.mem_cons_self d (List.mem_cons_of_mem e hd) hd'
      obtain ⟨s', hs'⟩ := hcs.below c hc
      have hpe : p.depth = e.path.depth := by
        rw [hp, Path.depth_below] at hd'
        omega
      refine Path.compareByDepth_eq_lt_iff.2 (.inr ⟨hd'.trans hdepth.symm, ?_⟩)
      rw [hp, hs']
      exact Path.compare_below_lt_of_lt s s' hpe hlt
    · exact precedes_of_depth_lt (by omega)
  deeper d hd c hc hdepth := by
    have hlow := hqueue.depth_le_of_mem hcs hd
    rcases List.mem_append.1 hc with hc | hc
    · have hspan := hqueue.span e List.mem_cons_self c (List.mem_cons_of_mem e hc)
      rcases List.mem_append.1 hd with hd | hd
      · exact h.deeper d (List.mem_cons_of_mem e hd) c (List.mem_cons_of_mem e hc) hdepth
      · have := hcs.depth_eq hd
        omega
    · have hchild := hcs.depth_eq hc
      rcases List.mem_append.1 hd with hd | hd
      · obtain ⟨s, hs⟩ := hcs.below c hc
        have hbefore : Precedes e d := List.rel_of_pairwise_cons h.sorted hd
        exact ⟨e.path, s, hs, hbefore.compare_eq (by omega)⟩
      · have := hcs.depth_eq hd
        omega

end Entry

/-! ## Walks -/

namespace Items

variable {items : Items} {owner : String}

/-- The live children of a path come in the order by depth. -/
theorem pairwise_precedes_children (p : Path) :
    (items.children owner p).Pairwise Entry.Precedes := by
  have hlisted : (items.children owner p).Pairwise fun c d => c.path.name < d.path.name :=
    (items.pairwise_listed p).filter _
  refine hlisted.imp_of_mem fun {c d} hc hd hlt => ?_
  obtain ⟨s, hs⟩ := (childrenOf_children p).below c hc
  obtain ⟨s', hs'⟩ := (childrenOf_children p).below d hd
  rw [hs, hs', Path.name_below, Path.name_below] at hlt
  refine Path.compareByDepth_eq_lt_iff.2 (.inr ?_)
  rw [hs, hs', Path.depth_below, Path.depth_below]
  exact ⟨rfl, Path.compare_below_lt_iff.2 hlt⟩

theorem pairwise_precedes_expand (e : Entry) :
    (items.expand owner e).Pairwise Entry.Precedes := by
  unfold expand
  split
  · exact pairwise_precedes_children e.path
  · exact .nil

/-- A walk from a queue in order visits the paths in the order by depth, after whatever comes before
its queue. -/
theorem pairwise_precedes_walk {visits : Nat} {queue es : List Entry}
    (h : items.walk owner visits queue = some es) (hqueue : Entry.IsQueue queue)
    (hsorted : Entry.IsSorted queue) :
    es.Pairwise Entry.Precedes ∧
      ∀ c, (∀ e ∈ queue, Entry.Precedes c e) → ∀ d ∈ es, Entry.Precedes c d := by
  fun_induction walk items owner visits queue generalizing es with
  | case1 visits =>
    cases h
    simp
  | case2 => cases h
  | case3 visits e queue ih =>
    obtain ⟨es', hes', rfl⟩ := Option.map_eq_some_iff.1 h
    have hcs : Entry.ChildrenOf e.path (items.expand owner e) := childrenOf_expand e
    obtain ⟨hes, hafter⟩ := ih hes' (hqueue.visit hcs)
      (hsorted.visit hqueue hcs (pairwise_precedes_expand e))
    have hrest : ∀ d ∈ es', Entry.Precedes e d := hafter e fun _ => hsorted.precedes_of_mem hcs
    refine ⟨List.pairwise_cons.2 ⟨hrest, hes⟩, fun c hc d hd => ?_⟩
    have hfront := hc e List.mem_cons_self
    rcases List.mem_cons.1 hd with rfl | hd
    · exact hfront
    · exact hfront.trans (hrest d hd)

/-- A walk from one entry visits paths in the order by depth. -/
theorem pairwise_compareByDepth_walk {visits : Nat} {e : Entry} {es : List Entry}
    (h : items.walk owner visits [e] = some es) :
    es.Pairwise fun c d => Path.compareByDepth c.path d.path = .lt :=
  (pairwise_precedes_walk h (Entry.isQueue_singleton e) (Entry.isSorted_singleton e)).1

end Items

end TableTree
