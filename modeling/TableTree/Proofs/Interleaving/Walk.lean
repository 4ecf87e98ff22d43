import TableTree.Proofs.Interleaving.Discipline
import TableTree.Proofs.Subtree

/-!
# Walks while others delete

While stores delete subtrees, live paths die and nothing comes to life. A walk lists one directory
after the other, so what it has visited in the end was never all live at one time. But it has visited
whatever is live by then: a path that is live at the end was live, below live directories, whenever
the walk came by.

Results:

* `Items.Wanes`, `waning`: how items change while stores delete subtrees.
* `Store.always_get_amid`, `Store.always_listChildren_amid`: reading, amid others.
* `Items.Walked`, `Items.Walked.visit`: what a walk knows, and what it knows after one more visit.
* `Walk.always_collect?_amid`: a walk is over in time, and has visited whatever is live.
-/

namespace TableTree

open Operation

variable {items items' : Items} {x : Option Items × Prop}

namespace Items

/-- Live paths die, and nothing else changes what a path is. No key comes or goes, and a tree stays
a tree. -/
structure Wanes (items items' : Items) : Prop where
  isSome_item? : ∀ key, (items'.item? key).isSome = (items.item? key).isSome
  kind? : ∀ p, items'.kind? p = none ∨ items'.kind? p = items.kind? p
  isTree : items.IsTree → items'.IsTree

namespace Wanes

theorem refl (items : Items) : items.Wanes items := ⟨fun _ => rfl, fun _ => .inr rfl, id⟩

theorem trans {items'' : Items} (h : items.Wanes items') (h' : items'.Wanes items'') :
    items.Wanes items'' where
  isSome_item? key := (h'.isSome_item? key).trans (h.isSome_item? key)
  kind? p := by
    rcases h'.kind? p with hp | hp
    · exact .inl hp
    · rw [hp]
      exact h.kind? p
  isTree htree := h'.isTree (h.isTree htree)

theorem isLive (h : items.Wanes items') {p : Path} (hp : items'.IsLive p) : items.IsLive p := by
  unfold IsLive
  rw [← (h.kind? p).resolve_left hp]
  exact hp

theorem isDirectory (h : items.Wanes items') {p : Path} (hp : items'.IsDirectory p) :
    items.IsDirectory p := by
  refine hp.imp_right fun hp => ?_
  rw [← hp]
  exact ((h.kind? p).resolve_left (isLive_of_kind? hp)).symm

theorem isSome_at? (h : items.Wanes items') (p : Path) :
    (items'.at? p).isSome = (items.at? p).isSome := by
  unfold at?
  cases p.key? with
  | none => rfl
  | some key => exact h.isSome_item? key

end Wanes

end Items

/-- How items change while stores delete subtrees. -/
def waning : Drift where
  Leads := Items.Wanes
  refl := Items.Wanes.refl
  trans := Items.Wanes.trans

theorem waning_stable_isTree : waning.Stable Items.IsTree := fun _ _ h => h.isTree

/-! ## Reading -/

namespace Store

variable {s : Store} {m : Memory} {d : Drift} {I : Items → Prop}

/-- What is read is what the items have said at some time, with all that is known of them. -/
theorem always_get_amid (hI : d.Stable I) (path : Path) (hx : Kept I x) :
    (s.get path false).Always (amid s.table d) m x fun r _ x' =>
      EndsIn (fun e => Kept fun items => I items ∧ e = items.lookup? s.owner path) (Kept I) r
        x' := by
  unfold get Items.lookup?
  refine always_bound_bind_amid hI hx (fun _ => id) ?_
  intro _ m' x' hx'
  cases hr : path.isRoot with
  | true => exact hx'.imp fun _ hI => ⟨hI, rfl⟩
  | false =>
    obtain ⟨key, hkey⟩ := Path.exists_key?_of_isRoot hr
    simp only [Bool.false_eq_true, if_false]
    rw [Path.key_of_key? hkey, always_ofPath_ok]
    refine Client.always_once ?_
    unfold readEntry
    rw [Program.always_bind]
    refine (Program.always_ask_amid hI (r := .getItem s.table key) rfl (fun _ _ _ h => h)
      hx').imp ?_
    intro answer x'' h
    cases answer with
    | error e => exact h
    | ok found =>
      have hfound : Kept (fun items => I items ∧
          found.bind (Entry.ofItem? · s.owner) =
            (items.at? path).bind (Entry.ofItem? · s.owner)) x'' := by
        refine Kept.imp h ?_
        rintro items ⟨hI, rfl⟩
        exact ⟨hI, by rw [Items.at?_of_key? items hkey]⟩
      dsimp only
      split
      · rename_i hnone
        rw [hnone] at hfound
        exact hfound
      · rename_i entry hentry
        rw [hentry] at hfound
        exact hfound

/-- The live children in a listing are those at some time. What is known of them from then on is known
in the end. -/
theorem always_listChildren_amid (hI : d.Stable I) {path : Path} {K : List Entry → Items → Prop}
    (hK : ∀ cs, d.Stable (K cs))
    (hchildren : ∀ items, I items → K (items.children s.owner path) items)
    (hx : Kept I x) :
    (s.listChildren path).Always (amid s.table d) m x fun r _ x' =>
      EndsIn (fun l => Kept (K (l.elim [] fun l => l.entries.filter Entry.isLive))) (Kept I) r
        x' := by
  unfold listChildren
  refine always_bound_bind_amid hI hx (fun _ => id) ?_
  intro _ m' x' hx'
  refine (Client.always_once (Program.always_ask_amid hI
    (r := .query s.table path.partition none) rfl (fun _ _ _ h => h) hx')).andThen ?_
  intro found m'' x'' h
  have hfound : Kept (fun items => I items ∧
      K ((found.filterMap (Entry.ofItem? · s.owner)).filter Entry.isLive) items) x'' := by
    refine Kept.imp h ?_
    rintro items ⟨hI, rfl⟩
    rw [Items.select_none]
    exact ⟨hI, hchildren items hI⟩
  dsimp only
  split
  · rename_i hempty
    rw [List.isEmpty_iff.1 hempty] at hfound ⊢
    refine (always_get_amid (hI.and (hK _)) path hfound).bind ?_ ?_
    · intro e _ _ hr
      cases e <;> exact Kept.imp hr fun _ h => h.1.2
    · exact fun _ _ _ hr => Kept.imp hr fun _ => And.left
  · exact hfound.imp fun _ => And.right

end Store

/-! ## Visiting -/

namespace Items

variable {path p : Path} {e : Entry} {cs visited queue : List Entry} {start : Items}

/-- What is known of entries that a listing of a path has shown, whatever has been deleted since. -/
structure Listed (items : Items) (p : Path) (cs : List Entry) : Prop where
  childrenOf : Entry.ChildrenOf p cs
  isSome_at? : ∀ c ∈ cs, (items.at? c.path).isSome
  isDir : ∀ c ∈ cs, items.IsDirectory c.path → c.isDir = true
  complete : ∀ s, items.IsLive (p.below s) → ∃ c ∈ cs, c.path = p.below s

theorem listed_children (owner : String) (p : Path) : items.Listed p (items.children owner p) where
  childrenOf := childrenOf_children p
  isSome_at? c hc := by
    obtain ⟨-, item, -, hat, -⟩ := of_mem_children hc
    rw [hat]
    rfl
  isDir _ hc := (isDir_iff_of_mem_children hc).2
  complete _ := exists_mem_children

theorem Listed.of_wanes (h : items.Listed p cs) (hwanes : items.Wanes items') :
    items'.Listed p cs where
  childrenOf := h.childrenOf
  isSome_at? c hc := (hwanes.isSome_at? c.path).trans (h.isSome_at? c hc)
  isDir c hc hdir := h.isDir c hc (hwanes.isDirectory hdir)
  complete s hs := h.complete s (hwanes.isLive hs)

/-- What a walk from a path knows that has begun at the items `start`. -/
structure Walked (start items : Items) (path : Path) (visited queue : List Entry) : Prop where
  isTree : items.IsTree
  isSome_item? : ∀ key, (items.item? key).isSome = (start.item? key).isSome
  isQueue : Entry.IsQueue queue
  sorted : (visited ++ queue).Pairwise fun d e => d.path.depth ≤ e.path.depth
  isUnder : ∀ e ∈ visited ++ queue, e.path.isUnder path = true
  isSome_at? : ∀ e ∈ visited ++ queue, e.path.isRoot = true ∨ (items.at? e.path).isSome
  isDir : ∀ e ∈ queue, items.IsDirectory e.path → e.isDir = true
  /-- whatever is live under the path has been visited or is under the queue -/
  complete : ∀ p, items.IsLive p → p.isUnder path = true →
    (∃ e ∈ visited, e.path = p) ∨ ∃ e ∈ queue, p.isUnder e.path = true

namespace Walked

theorem of_wanes (h : start.Walked items path visited queue) (hwanes : items.Wanes items') :
    start.Walked items' path visited queue where
  isTree := hwanes.isTree h.isTree
  isSome_item? key := (hwanes.isSome_item? key).trans (h.isSome_item? key)
  isQueue := h.isQueue
  sorted := h.sorted
  isUnder := h.isUnder
  isSome_at? e he := by
    rw [hwanes.isSome_at?]
    exact h.isSome_at? e he
  isDir e he hdir := h.isDir e he (hwanes.isDirectory hdir)
  complete p hp := h.complete p (hwanes.isLive hp)

/-- An entry that is no directory has nothing live below it. -/
theorem listed_nil (h : start.Walked items path visited (e :: queue)) (hdir : e.isDir = false) :
    items.Listed e.path [] where
  childrenOf := Entry.childrenOf_nil e.path
  isSome_at? := by simp
  isDir := by simp
  complete s hs := by
    have hparent : items.IsDirectory e.path := by
      cases hr : e.path.isRoot with
      | true => exact .inl hr
      | false => exact .inr (h.isTree _ hs e.path (Path.mem_ancestors_below.2 ⟨hr, .inl rfl⟩))
    rw [h.isDir e List.mem_cons_self hparent] at hdir
    cases hdir

/-- What is live under a path is the path itself or lies under a child of it. -/
theorem eq_or_exists_isUnder {q : Path} (htree : items.IsTree) (hcs : items.Listed q cs)
    (hp : items.IsLive p) (hu : p.isUnder q = true) :
    p = q ∨ ∃ c ∈ cs, p.isUnder c.path = true := by
  by_cases hpq : p = q
  · exact .inl hpq
  · obtain ⟨s, hs⟩ := Path.exists_isUnder_below hu hpq
    have hlive : items.IsLive (q.below s) := by
      by_cases hps : p = q.below s
      · rwa [← hps]
      · have hmem := Path.mem_ancestors_of_isUnder hs hps (Path.isRoot_below q s)
        exact isLive_of_kind? (htree p hp _ hmem)
    obtain ⟨c, hc, hcs⟩ := hcs.complete s hlive
    exact .inr ⟨c, hc, hcs ▸ hs⟩

/-- What a walk knows after one more visit. -/
theorem visit (h : start.Walked items path visited (e :: queue)) (hcs : items.Listed e.path cs) :
    start.Walked items path (visited ++ [e]) (queue ++ cs) := by
  have hassoc : (visited ++ [e]) ++ (queue ++ cs) = (visited ++ e :: queue) ++ cs := by simp
  have hfront : e.path.isUnder path = true := h.isUnder e (by simp)
  refine ⟨h.isTree, h.isSome_item?, h.isQueue.visit hcs.childrenOf, ?_, ?_, ?_, ?_, ?_⟩
  · rw [List.append_assoc]
    obtain ⟨hvisited, hqueue, hle⟩ := List.pairwise_append.1 h.sorted
    have hafter : ∀ d ∈ queue ++ cs, e.path.depth ≤ d.path.depth :=
      fun _ => h.isQueue.depth_le_of_mem hcs.childrenOf
    refine List.pairwise_append.2 ⟨hvisited, ?_, fun d hd c hc => ?_⟩
    · exact List.pairwise_cons.2 ⟨hafter, (h.isQueue.visit hcs.childrenOf).sorted⟩
    · have hde := hle d hd e List.mem_cons_self
      rcases List.mem_cons.1 hc with rfl | hc
      · exact hde
      · exact Nat.le_trans hde (hafter c hc)
  · rw [hassoc]
    intro c hc
    rcases List.mem_append.1 hc with hc | hc
    · exact h.isUnder c hc
    · exact Path.isUnder_trans (hcs.childrenOf.isUnder hc) hfront
  · rw [hassoc]
    intro c hc
    rcases List.mem_append.1 hc with hc | hc
    · exact h.isSome_at? c hc
    · exact .inr (hcs.isSome_at? c hc)
  · intro c hc
    rcases List.mem_append.1 hc with hc | hc
    · exact h.isDir c (List.mem_cons_of_mem e hc)
    · exact hcs.isDir c hc
  · intro p hp hu
    rcases h.complete p hp hu with ⟨d, hd, hdp⟩ | ⟨d, hd, hdp⟩
    · exact .inl ⟨d, List.mem_append_left _ hd, hdp⟩
    · rcases List.mem_cons.1 hd with rfl | hd
      · rcases eq_or_exists_isUnder h.isTree hcs hp hdp with rfl | ⟨c, hc, hpc⟩
        · exact .inl ⟨d, by simp, rfl⟩
        · exact .inr ⟨c, List.mem_append_right _ hc, hpc⟩
      · exact .inr ⟨d, List.mem_append_left _ hd, hdp⟩

/-- Each visit leaves less to be visited of the items that the walk has begun at. -/
theorem toVisit_lt (h : start.Walked items path visited (e :: queue))
    (hcs : Entry.ChildrenOf e.path cs) :
    start.toVisit (queue ++ cs) < start.toVisit (e :: queue) := by
  refine toVisit_visit_lt h.isQueue hcs ?_
  refine (h.isSome_at? e (by simp)).imp_right fun hat => ?_
  obtain ⟨item, hat⟩ := Option.isSome_iff_exists.1 hat
  obtain ⟨hkey, hitem⟩ := key?_of_at? hat
  have hsome : (start.item? item.key).isSome := by
    rw [← h.isSome_item?, hitem]
    rfl
  obtain ⟨item', hitem'⟩ := Option.isSome_iff_exists.1 hsome
  obtain ⟨attributes, -, rfl⟩ := Option.map_eq_some_iff.1 hitem'
  have hmem : (⟨item.key, attributes⟩ : Item) ∈ start.all := mem_all.2 hitem'
  exact ⟨_, hmem, Path.path?_of_key? hkey⟩

end Walked

end Items

theorem waning_stable_walked (start : Items) (path : Path) (visited queue : List Entry) :
    waning.Stable fun items => start.Walked items path visited queue :=
  fun _ _ hwanes h => h.of_wanes hwanes

/-- The listing of the entry that is visited shows what may be live below it. -/
theorem Walk.always_listing_amid {s : Store} {start : Items} {path : Path} {e : Entry}
    {visited queue : List Entry} {m : Memory}
    (hx : Kept (fun items => start.Walked items path visited (e :: queue)) x) :
    (if e.isDir then s.listChildren e.path else pure none).Always (amid s.table waning) m x
      fun r _ x' =>
        EndsIn (fun l => Kept fun items => start.Walked items path visited (e :: queue) ∧
          items.Listed e.path (l.elim [] fun l => l.entries.filter Entry.isLive))
            (Kept Items.IsTree) r x' := by
  have hstable (cs : List Entry) : waning.Stable fun items =>
      start.Walked items path visited (e :: queue) ∧ items.Listed e.path cs :=
    Drift.Stable.and (waning_stable_walked start path visited (e :: queue))
      fun _ _ hwanes h => h.of_wanes hwanes
  cases hdir : e.isDir with
  | true =>
    refine (s.always_listChildren_amid (waning_stable_walked _ _ _ _) hstable
      (fun items h => ⟨h, Items.listed_children s.owner e.path⟩) hx).imp ?_
    intro r m' x' hr
    cases r with
    | ok l => exact hr
    | error e => exact Kept.imp hr fun _ h => h.isTree
  | false => exact hx.imp fun _ h => ⟨h, h.listed_nil hdir⟩

/-- A walk is over within the visits that are left at most, and then it has visited whatever is live
under its path. -/
theorem Walk.always_collect?_amid {s : Store} {start : Items} {path : Path} (visits : Nat)
    (visited queue : List Entry) (m : Memory)
    (hx : Kept (fun items => start.Walked items path visited queue) x)
    (hvisits : start.toVisit queue ≤ visits) :
    (collect? s visits ⟨queue⟩).Always (amid s.table waning) m x fun r _ x' =>
      EndsIn (fun found => Kept fun items => ∃ es, found = some es ∧
        start.Walked items path (visited ++ es) []) (Kept Items.IsTree) r x' := by
  induction visits generalizing visited queue m x with
  | zero =>
    cases queue with
    | nil =>
      rw [collect?_nil]
      exact hx.imp fun items h => ⟨[], rfl, by rwa [List.append_nil]⟩
    | cons e queue =>
      obtain ⟨-, items, -, h⟩ := hx
      have := h.toVisit_lt (Entry.childrenOf_nil e.path)
      omega
  | succ visits ih =>
    cases queue with
    | nil =>
      rw [collect?_nil]
      exact hx.imp fun items h => ⟨[], rfl, by rwa [List.append_nil]⟩
    | cons e queue =>
      rw [collect?_cons]
      refine (always_listing_amid hx).andThen ?_
      intro l m' x' hx'
      obtain ⟨-, items, -, h, hcs⟩ := id hx'
      have hlt := h.toVisit_lt hcs.childrenOf
      have hvisit : Kept _ x' := Kept.imp hx' fun _ h => h.1.visit h.2
      refine (ih (visited ++ [e]) _ m' hvisit (by omega)).andThen ?_
      intro found m'' x'' hx''
      refine Kept.imp hx'' ?_
      rintro items ⟨es, rfl, h⟩
      refine ⟨e :: es, rfl, ?_⟩
      rwa [List.append_assoc] at h

end TableTree
