import TableTree.Proofs.Tree.Kinds
import TableTree.Proofs.Walk.Queue

/-!
# Walks through the items

A walk through items that nobody changes is a function of the items: it visits the front of a queue
and puts the live children of a directory at its end. So it visits what can be reached from its
queue through live directories, the shallower first.

Results:

* `Items.children`, `Items.walk`: the live children of a path, and the visits of a walk.
* `Items.mem_walk_iff`: a walk visits what its queue reaches.
* `Items.pairwise_depth_walk`: a walk visits shallower paths first.
-/

namespace TableTree

namespace Items

/-- The live children of a path in the order of their names. -/
def children (items : Items) (owner : String) (p : Path) : List Entry :=
  ((items.all.filter fun item => item.key.parent = p.partition).filterMap
    (Entry.ofItem? · owner)).filter Entry.isLive

/-- The entries that a visit puts into the queue. -/
def expand (items : Items) (owner : String) (e : Entry) : List Entry :=
  if e.isDir then items.children owner e.path else []

/-- The visits of a walk with the given queue; none when there are more than `visits`. -/
def walk (items : Items) (owner : String) : (visits : Nat) → List Entry → Option (List Entry)
  | _, [] => some []
  | 0, _ :: _ => none
  | visits + 1, e :: queue => (walk items owner visits (queue ++ items.expand owner e)).map (e :: ·)

variable {items : Items} {owner : String}

/-! ## Children -/

theorem mem_all {item : Item} : item ∈ items.all ↔ items.item? item.key = some item := by
  rw [all, List.mem_map, item?]
  constructor
  · rintro ⟨⟨key, attributes⟩, h, rfl⟩
    rw [Std.ExtTreeMap.mem_toList_iff_getElem?_eq_some] at h
    simp [h]
  · intro h
    obtain ⟨attributes, ha, hitem⟩ := Option.map_eq_some_iff.1 h
    exact ⟨(item.key, attributes), Std.ExtTreeMap.mem_toList_iff_getElem?_eq_some.2 ha, hitem⟩

/-- No key is repeated, and the keys are in their order. -/
theorem pairwise_all (items : Items) :
    items.all.Pairwise fun x y => compare x.key y.key = .lt := by
  rw [all, List.pairwise_map]
  exact Std.ExtTreeMap.ordered_keys_toList

/-- An item of the partition of a path is read as the child that its key names. -/
theorem path_of_partition {p : Path} {item : Item} {e : Entry}
    (hparent : item.key.parent = p.partition) (hof : Entry.ofItem? item owner = some e) :
    ∃ s : Segment, e.path = p.below s ∧ item.key = ⟨p.partition, s.val⟩ := by
  obtain ⟨hpath, -, -⟩ := Entry.liveKind?_of_ofItem? hof
  have hkey : item.key = ⟨p.partition, item.key.child⟩ := by
    rw [← hparent]
  rw [hkey, Key.path?_partition, Path.child?_eq_some_iff] at hpath
  obtain ⟨hs, hpath⟩ := hpath
  exact ⟨⟨_, hs⟩, hpath, hkey⟩

/-- A live child of a path lies directly below it and is what the items say. -/
theorem of_mem_children {p : Path} {c : Entry} (h : c ∈ items.children owner p) :
    ∃ (s : Segment) (item : Item), c.path = p.below s ∧ items.at? c.path = some item ∧
      Entry.ofItem? item owner = some c ∧ items.kind? c.path = some c.kind := by
  obtain ⟨hc, hl⟩ := List.mem_filter.1 h
  obtain ⟨item, hitem, hof⟩ := List.mem_filterMap.1 hc
  obtain ⟨hall, hparent⟩ := List.mem_filter.1 hitem
  obtain ⟨s, hpath, hkey⟩ := path_of_partition (of_decide_eq_true hparent) hof
  have hkind := (Entry.liveKind?_of_ofItem? hof).2.1
  have hat : items.at? c.path = some item := by
    rw [hpath, at?_of_key? items (Path.key?_below p s), ← hkey]
    exact mem_all.1 hall
  refine ⟨s, item, hpath, hat, hof, ?_⟩
  rw [kind?, hat, Option.bind_some, ← hkind, Entry.liveKind?, if_pos hl]

/-- Every live path directly below a path is among its children. -/
theorem exists_mem_children {p : Path} {s : Segment} (h : items.IsLive (p.below s)) :
    ∃ c ∈ items.children owner p, c.path = p.below s := by
  obtain ⟨k, hk⟩ := kind?_of_isLive h
  rw [kind?, Option.bind_eq_some_iff] at hk
  obtain ⟨item, hat, hkind⟩ := hk
  obtain ⟨hk, hitem⟩ := key?_of_at? hat
  have hkey : item.key = ⟨p.partition, s.val⟩ :=
    (Option.some.inj ((Path.key?_below p s).symm.trans hk)).symm
  have hpath : item.key.path? = some (p.below s) := by
    rw [hkey]
    exact Path.path?_key_below p s
  obtain ⟨c, hof⟩ : ∃ c, Entry.ofItem? item owner = some c := by
    rw [Entry.ofItem?, hpath]
    exact ⟨_, rfl⟩
  obtain ⟨hcpath, hckind, -⟩ := Entry.liveKind?_of_ofItem? hof
  have hm : item ∈ items.all.filter fun item => item.key.parent = p.partition :=
    List.mem_filter.2 ⟨mem_all.2 hitem, by simp [hkey]⟩
  have hlive : c.isLive = true := (Entry.isLive_of_liveKind? (hckind.trans hkind)).1
  refine ⟨c, List.mem_filter.2 ⟨List.mem_filterMap.2 ⟨item, hm, hof⟩, hlive⟩, ?_⟩
  exact Option.some.inj (hcpath.symm.trans hpath)

/-- The children of a path have different paths. -/
theorem pairwise_children (p : Path) :
    (items.children owner p).Pairwise fun c d => c.path ≠ d.path := by
  have hall : items.all.Pairwise fun x y => x.key ≠ y.key := by
    rw [all, List.pairwise_map]
    refine Std.ExtTreeMap.distinct_keys_toList.imp ?_
    intro x y h hk
    have hxy : x.1 = y.1 := hk
    rw [hxy] at h
    exact h Std.ReflCmp.compare_self
  have hpart := List.Pairwise.filter (fun item => item.key.parent = p.partition) hall
  refine List.Pairwise.filter _ (List.pairwise_filterMap.2 (hpart.imp_of_mem ?_))
  intro x y hx hy hne c hc d hd hcd
  -- both keys are those of one path in one partition
  obtain ⟨s, hpx, hkx⟩ := path_of_partition (of_decide_eq_true (List.mem_filter.1 hx).2) hc
  obtain ⟨s', hpy, hky⟩ := path_of_partition (of_decide_eq_true (List.mem_filter.1 hy).2) hd
  have hname := congrArg Path.name (hpx.symm.trans (hcd.trans hpy))
  rw [Path.name_below, Path.name_below] at hname
  apply hne
  rw [hkx, hky, hname]

theorem of_mem_expand {e c : Entry} (h : c ∈ items.expand owner e) :
    e.isDir = true ∧ c ∈ items.children owner e.path := by
  unfold expand at h
  split at h
  · exact ⟨‹_›, h⟩
  · cases h

theorem childrenOf_children (p : Path) : Entry.ChildrenOf p (items.children owner p) where
  below _ hc := by
    obtain ⟨s, -, hs, -⟩ := of_mem_children hc
    exact ⟨s, hs⟩
  distinct := pairwise_children p

theorem childrenOf_expand (e : Entry) : Entry.ChildrenOf e.path (items.expand owner e) := by
  unfold expand
  split
  · exact childrenOf_children e.path
  · exact Entry.childrenOf_nil e.path

/-- There is an item for what a visit puts into the queue. -/
theorem exists_item_of_mem_expand {e c : Entry} (h : c ∈ items.expand owner e) :
    ∃ item ∈ items.all, item.key.path? = some c.path := by
  obtain ⟨-, item, -, hat, hof, -⟩ := of_mem_children (of_mem_expand h).2
  exact ⟨item, mem_all.2 (key?_of_at? hat).2, (Entry.liveKind?_of_ofItem? hof).1⟩

/-! ## What a walk visits -/

/-- What is visited after an entry because of it, the entry included. -/
inductive Reaches (items : Items) (owner : String) : Entry → Entry → Prop
  | refl (e : Entry) : Reaches items owner e e
  | step {e c x : Entry} (hc : c ∈ items.expand owner e) (hx : Reaches items owner c x) :
      Reaches items owner e x

theorem Reaches.tail {e x c : Entry} (h : Reaches items owner e x)
    (hc : c ∈ items.expand owner x) : Reaches items owner e c := by
  induction h with
  | refl e => exact .step hc (.refl c)
  | step hd _ ih => exact .step hd (ih hc)

/-- A walk visits what its queue reaches. -/
theorem mem_walk_iff {visits : Nat} {queue es : List Entry}
    (h : items.walk owner visits queue = some es) {x : Entry} :
    x ∈ es ↔ ∃ e ∈ queue, Reaches items owner e x := by
  fun_induction walk items owner visits queue generalizing es with
  | case1 visits =>
    cases h
    simp
  | case2 => cases h
  | case3 visits e queue ih =>
    obtain ⟨es', hes', rfl⟩ := Option.map_eq_some_iff.1 h
    rw [List.mem_cons, ih hes']
    constructor
    · rintro (rfl | ⟨d, hd, hx⟩)
      · exact ⟨x, List.mem_cons_self, .refl x⟩
      · rcases List.mem_append.1 hd with hd | hd
        · exact ⟨d, List.mem_cons_of_mem e hd, hx⟩
        · exact ⟨e, List.mem_cons_self, .step hd hx⟩
    · rintro ⟨d, hd, hx⟩
      rcases List.mem_cons.1 hd with rfl | hd
      · cases hx with
        | refl => exact .inl rfl
        | step hc hx => exact .inr ⟨_, List.mem_append_right _ hc, hx⟩
      · exact .inr ⟨d, List.mem_append_left _ hd, hx⟩

/-! ## The order of the visits -/

/-- A walk visits shallower paths first, from those of its queue on. -/
theorem pairwise_depth_walk_of_isQueue {visits : Nat} {queue es : List Entry}
    (h : items.walk owner visits queue = some es) (hqueue : Entry.IsQueue queue) :
    es.Pairwise (fun d e => d.path.depth ≤ e.path.depth) ∧
      ∀ depth, (∀ e ∈ queue, depth ≤ e.path.depth) → ∀ d ∈ es, depth ≤ d.path.depth := by
  fun_induction walk items owner visits queue generalizing es with
  | case1 visits =>
    cases h
    simp
  | case2 => cases h
  | case3 visits e queue ih =>
    obtain ⟨es', hes', rfl⟩ := Option.map_eq_some_iff.1 h
    obtain ⟨hes, hdeep⟩ := ih hes' (hqueue.visit (childrenOf_expand e))
    have hafter : ∀ d ∈ es', e.path.depth ≤ d.path.depth :=
      hdeep _ fun _ => hqueue.depth_le_of_mem (childrenOf_expand e)
    refine ⟨List.pairwise_cons.2 ⟨hafter, hes⟩, fun depth hqueue d hd => ?_⟩
    have hlow := hqueue e List.mem_cons_self
    rcases List.mem_cons.1 hd with rfl | hd
    · exact hlow
    · exact Nat.le_trans hlow (hafter d hd)

/-- A walk from one entry visits shallower paths first. -/
theorem pairwise_depth_walk {visits : Nat} {e : Entry} {es : List Entry}
    (h : items.walk owner visits [e] = some es) :
    es.Pairwise fun d e => d.path.depth ≤ e.path.depth :=
  (pairwise_depth_walk_of_isQueue h (Entry.isQueue_singleton e)).1

end Items

end TableTree
