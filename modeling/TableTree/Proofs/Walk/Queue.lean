import TableTree.Proofs.Path.Ancestors
import TableTree.Proofs.Path.Codec
import TableTree.Entry.Basic
import TableTree.Service.State

/-!
# The queue of a walk

A visit takes the front of a queue away and puts entries directly below it at the end. Whichever
these are, the queue holds shallower paths first, none of its paths lies under another one, and each
visit leaves fewer items under the queue.

Results:

* `Entry.ChildrenOf`, `Entry.IsQueue`: entries directly below a path, and the order of a queue.
* `Entry.IsQueue.visit`: a visit keeps the order.
* `Items.toVisit`, `Items.toVisit_visit_lt`: a bound on the number of visits.
-/

namespace TableTree

namespace Entry

/-- Entries directly below a path, one for each path. -/
structure ChildrenOf (p : Path) (cs : List Entry) : Prop where
  below : ∀ c ∈ cs, ∃ s : Segment, c.path = p.below s
  distinct : cs.Pairwise fun c d => c.path ≠ d.path

variable {p : Path} {e c : Entry} {queue cs : List Entry}

theorem childrenOf_nil (p : Path) : ChildrenOf p [] := ⟨by simp, .nil⟩

namespace ChildrenOf

theorem isUnder (h : ChildrenOf p cs) (hc : c ∈ cs) : c.path.isUnder p = true := by
  obtain ⟨s, hs⟩ := h.below c hc
  rw [hs]
  exact Path.below_isUnder p s

theorem depth_eq (h : ChildrenOf p cs) (hc : c ∈ cs) : c.path.depth = p.depth + 1 := by
  obtain ⟨s, hs⟩ := h.below c hc
  rw [hs, Path.depth_below]

theorem isRoot (h : ChildrenOf p cs) (hc : c ∈ cs) : c.path.isRoot = false := by
  obtain ⟨s, hs⟩ := h.below c hc
  rw [hs, Path.isRoot_below]

end ChildrenOf

/-- Entries with shallower paths first, of two depths at most, and none under another one. -/
structure IsQueue (queue : List Entry) : Prop where
  apart : queue.Pairwise fun d e => Path.Apart d.path e.path
  sorted : queue.Pairwise fun d e => d.path.depth ≤ e.path.depth
  span : ∀ d ∈ queue, ∀ e ∈ queue, e.path.depth ≤ d.path.depth + 1

theorem isQueue_singleton (e : Entry) : IsQueue [e] where
  apart := List.pairwise_singleton ..
  sorted := List.pairwise_singleton ..
  span := by simp

/-- What is in a queue after a visit is not shallower than what was visited. -/
theorem IsQueue.depth_le_of_mem (h : IsQueue (e :: queue)) (hcs : ChildrenOf e.path cs) {d : Entry}
    (hd : d ∈ queue ++ cs) : e.path.depth ≤ d.path.depth := by
  rcases List.mem_append.1 hd with hd | hd
  · exact List.rel_of_pairwise_cons h.sorted hd
  · rw [hcs.depth_eq hd]
    omega

/-- What was visited is under nothing in the queue after the visit. -/
theorem IsQueue.not_isUnder_of_mem (h : IsQueue (e :: queue)) (hcs : ChildrenOf e.path cs)
    {d : Entry} (hd : d ∈ queue ++ cs) : e.path.isUnder d.path = false := by
  rcases List.mem_append.1 hd with hd | hd
  · exact ((List.pairwise_cons.1 h.apart).1 d hd).1
  · obtain ⟨s, hs⟩ := hcs.below d hd
    rw [hs, Path.not_isUnder_below]

/-- The queue after a visit is ordered as it was before. -/
theorem IsQueue.visit (h : IsQueue (e :: queue)) (hcs : ChildrenOf e.path cs) :
    IsQueue (queue ++ cs) where
  apart := by
    obtain ⟨hfirst, hrest⟩ := List.pairwise_cons.1 h.apart
    refine List.pairwise_append.2 ⟨hrest, hcs.distinct.imp_of_mem fun {c d} hc hd hne => ?_, ?_⟩
    · obtain ⟨s, hs⟩ := hcs.below c hc
      obtain ⟨s', hs'⟩ := hcs.below d hd
      rw [hs, hs'] at hne ⊢
      exact Path.apart_below hne
    · intro d hd c hc
      obtain ⟨s, hs⟩ := hcs.below c hc
      rw [hs]
      exact Path.Apart.below ⟨(hfirst d hd).2, (hfirst d hd).1⟩ s
  sorted := by
    refine List.pairwise_append.2 ⟨(List.pairwise_cons.1 h.sorted).2, ?_, fun d hd c hc => ?_⟩
    · refine hcs.distinct.imp_of_mem fun {c d} hc hd _ => ?_
      exact Nat.le_of_eq ((hcs.depth_eq hc).trans (hcs.depth_eq hd).symm)
    · rw [hcs.depth_eq hc]
      exact h.span e List.mem_cons_self d (List.mem_cons_of_mem e hd)
  span d hd c hc := by
    have hd := h.depth_le_of_mem hcs hd
    have hc : c.path.depth ≤ e.path.depth + 1 := by
      rcases List.mem_append.1 hc with hc | hc
      · exact h.span e List.mem_cons_self c (List.mem_cons_of_mem e hc)
      · exact Nat.le_of_eq (hcs.depth_eq hc)
    omega

end Entry

namespace Items

variable {items : Items} {e : Entry} {queue cs : List Entry}

/-- Whether an item is kept for a path under an entry of a queue. -/
def covered (queue : List Entry) (item : Item) : Bool :=
  queue.any fun e => item.key.path?.any (·.isUnder e.path)

theorem covered_iff {item : Item} :
    covered queue item = true ↔
      ∃ e ∈ queue, ∃ p, item.key.path? = some p ∧ p.isUnder e.path = true := by
  simp [covered, Option.any_eq_true]

/-- What is under the queue after a visit was under it before. -/
theorem covered_of_covered_visit (hcs : Entry.ChildrenOf e.path cs) {item : Item}
    (h : covered (queue ++ cs) item = true) : covered (e :: queue) item = true := by
  obtain ⟨d, hd, p, hp, hu⟩ := covered_iff.1 h
  rcases List.mem_append.1 hd with hd | hd
  · exact covered_iff.2 ⟨d, List.mem_cons_of_mem e hd, p, hp, hu⟩
  · have hue := Path.isUnder_trans hu (hcs.isUnder hd)
    exact covered_iff.2 ⟨e, List.mem_cons_self, p, hp, hue⟩

/-- The item of the visited path is under no path of the queue any more. -/
theorem covered_visit_eq_false (hqueue : Entry.IsQueue (e :: queue))
    (hcs : Entry.ChildrenOf e.path cs) {item : Item} (hpath : item.key.path? = some e.path) :
    covered (queue ++ cs) item = false := by
  apply eq_false_of_ne_true
  intro h
  obtain ⟨d, hd, p, hp, hu⟩ := covered_iff.1 h
  cases hpath.symm.trans hp
  rw [hqueue.not_isUnder_of_mem hcs hd] at hu
  cases hu

/-- A condition that is lost by an element, and by none gained, is met less often. -/
theorem countP_lt_of_mem {α : Type} {l : List α} {p q : α → Bool} {a : α}
    (himp : ∀ x ∈ l, p x = true → q x = true) (ha : a ∈ l) (hp : p a = false) (hq : q a = true) :
    l.countP p < l.countP q := by
  obtain ⟨before, after, rfl⟩ := List.append_of_mem ha
  have hbefore := List.countP_mono_left (l := before) fun x hx =>
    himp x (List.mem_append_left _ hx)
  have hafter := List.countP_mono_left (l := after) fun x hx =>
    himp x (List.mem_append_right _ (List.mem_cons_of_mem a hx))
  simp only [List.countP_append, List.countP_cons, hp, hq]
  simp only [Bool.false_eq_true, if_false, if_true]
  omega

/-- The number of items under a queue and of roots in it, for which there are no items. -/
def toVisit (items : Items) (queue : List Entry) : Nat :=
  items.all.countP (covered queue) + queue.countP fun e => e.path.isRoot

/-- Each visit leaves less to be visited. -/
theorem toVisit_visit_lt (hqueue : Entry.IsQueue (e :: queue)) (hcs : Entry.ChildrenOf e.path cs)
    (hitem : e.path.isRoot = true ∨ ∃ item ∈ items.all, item.key.path? = some e.path) :
    items.toVisit (queue ++ cs) < items.toVisit (e :: queue) := by
  have hroots : (queue ++ cs).countP (fun e => e.path.isRoot) =
      queue.countP fun e => e.path.isRoot := by
    have hnone : cs.countP (fun e => e.path.isRoot) = 0 := by
      rw [List.countP_eq_zero]
      intro c hc
      simp [hcs.isRoot hc]
    rw [List.countP_append, hnone, Nat.add_zero]
  have himp : ∀ item ∈ items.all, covered (queue ++ cs) item = true →
      covered (e :: queue) item = true := fun _ _ => covered_of_covered_visit hcs
  unfold toVisit
  rw [hroots, List.countP_cons]
  rcases hitem with hr | ⟨item, hitem, hpath⟩
  · have := List.countP_mono_left himp
    simp only [hr, if_true]
    omega
  · have hcovered : covered (e :: queue) item = true :=
      covered_iff.2 ⟨e, List.mem_cons_self, e.path, hpath, Path.isUnder_refl _⟩
    have := countP_lt_of_mem himp hitem (covered_visit_eq_false hqueue hcs hpath) hcovered
    omega

theorem length_all : items.all.length = items.size := by
  rw [all, List.length_map, Std.ExtTreeMap.length_toList]

theorem toVisit_le (items : Items) (queue : List Entry) :
    items.toVisit queue ≤ items.size + queue.countP fun e => e.path.isRoot := by
  have hcount : items.all.countP (covered queue) ≤ items.all.length := List.countP_le_length
  rw [length_all] at hcount
  unfold toVisit
  omega

end Items

end TableTree
