import TableTree.Proofs.Consistency
import TableTree.Proofs.Interleaving.Walk

/-!
# Deletion by several stores

Stores that delete overlapping subtrees at the same time bury some paths twice, and each works from a
walk that is out of date. Still none of them leaves a live path below a dead one: whatever is live
under the path of a deletion has its tombstone still to come, the deeper paths first.

Results:

* `Items.Doomed`: tombstones that are still to be stored.
* `deletion`: the discipline of calls that delete subtrees.
* `Crew.isTree_steps`: a tree after every step of several stores that delete subtrees, and nothing
  live under the path of a deletion that has succeeded.
-/

namespace TableTree

open Operation

variable {items items' : Items} {path : Path} {ts : List Entry} {now : Int64}
  {x : Option Items × Prop}

namespace Items

/-- Tombstones that are still to be stored by the deletion of a subtree, deeper paths first. Whatever
is live in the subtree has one. -/
structure Doomed (items : Items) (path : Path) (now : Int64) (ts : List Entry) : Prop where
  isTree : items.IsTree
  eq_tombstone : ∀ t ∈ ts, t = .tombstone t.path now
  isRoot : ∀ t ∈ ts, t.path.isRoot = false
  isSome_at? : ∀ t ∈ ts, (items.at? t.path).isSome
  isUnder : ∀ t ∈ ts, t.path.isUnder path = true
  sorted : ts.Pairwise fun t u => u.path.depth ≤ t.path.depth
  complete : ∀ p, items.IsLive p → p.isUnder path = true → ∃ t ∈ ts, t.path = p

theorem Doomed.of_wanes (h : items.Doomed path now ts) (hwanes : items.Wanes items') :
    items'.Doomed path now ts where
  isTree := hwanes.isTree h.isTree
  eq_tombstone := h.eq_tombstone
  isRoot := h.isRoot
  isSome_at? t ht := (hwanes.isSome_at? t.path).trans (h.isSome_at? t ht)
  isUnder := h.isUnder
  sorted := h.sorted
  complete p hp := h.complete p (hwanes.isLive hp)

/-- Burying paths that have items, with whatever is live below them, lets the items wane. -/
theorem Buried.wanes {doomed : Path → Prop} (h : items.Buried items' doomed now)
    (hsome : ∀ p, doomed p → (items.at? p).isSome)
    (hdown : ∀ p, items.IsLive p → ∀ q ∈ p.ancestors, doomed q → doomed p) :
    items.Wanes items' where
  isSome_item? key := by
    by_cases hkey : ∃ p, doomed p ∧ p.key? = some key
    · obtain ⟨p, hp, hk⟩ := hkey
      have hold := hsome p hp
      have hnew := h.tombstone p hp
      rw [at?_of_key? items hk] at hold
      rw [at?_of_key? items' hk, Entry.item?_of_key? (e := .tombstone p now) hk] at hnew
      rw [hold, hnew]
      rfl
    · rw [h.other key fun p hp hk => hkey ⟨p, hp, hk⟩]
  kind? p := by
    by_cases hp : doomed p
    · exact .inl (h.kind?_of_doomed hp)
    · exact .inr (h.kind?_other hp)
  isTree htree := htree.of_buried h hdown

/-- When some of the tombstones are stored, from the front, the others are still to be stored. -/
theorem Doomed.storeAll_take (h : items.Doomed path now ts) (k : Nat) :
    items.Wanes (items.storeAll (ts.take k)) ∧
      (items.storeAll (ts.take k)).Doomed path now (ts.drop k) := by
  have hburied : items.Buried (items.storeAll (ts.take k)) _ now :=
    buried_storeAll fun t ht => h.eq_tombstone t (List.mem_of_mem_take ht)
  have hwanes : items.Wanes (items.storeAll (ts.take k)) := by
    refine hburied.wanes ?_ ?_
    · rintro p ⟨t, ht, rfl⟩
      exact h.isSome_at? t (List.mem_of_mem_take ht)
    · rintro p hp q hq ⟨t, ht, rfl⟩
      have hunder := Path.isUnder_trans (Path.isUnder_of_mem_ancestors hq)
        (h.isUnder t (List.mem_of_mem_take ht))
      obtain ⟨u, hu, rfl⟩ := h.complete p hp hunder
      exact ⟨u, mem_take_of_depth_lt h.sorted ht hu (Path.depth_lt_of_mem_ancestors hq), rfl⟩
  have hrest := h.of_wanes hwanes
  refine ⟨hwanes, hrest.isTree, ?_, ?_, ?_, ?_, h.sorted.sublist (List.drop_sublist k ts), ?_⟩
  · exact fun t ht => h.eq_tombstone t (List.mem_of_mem_drop ht)
  · exact fun t ht => h.isRoot t (List.mem_of_mem_drop ht)
  · exact fun t ht => hrest.isSome_at? t (List.mem_of_mem_drop ht)
  · exact fun t ht => h.isUnder t (List.mem_of_mem_drop ht)
  · intro p hp hu
    obtain ⟨hlive, hnot⟩ := hburied.isLive_iff.1 hp
    obtain ⟨t, ht, rfl⟩ := h.complete p hlive hu
    rw [← List.take_append_drop k ts] at ht
    exact ⟨t, (List.mem_append.1 ht).resolve_left fun ht => hnot ⟨t, ht, rfl⟩, rfl⟩

/-- After a walk, the tombstones for what was visited are still to be stored. -/
theorem Walked.doomed {start : Items} {es : List Entry} (h : start.Walked items path es [])
    (now : Int64) : items.Doomed path now (Entry.tombstones es now) := by
  have hvisited : ∀ t ∈ Entry.tombstones es now, ∃ e ∈ es ++ [], e.path = t.path := by
    intro t ht
    obtain ⟨⟨e, he, hp⟩, -⟩ := Entry.exists_mem_tombstones.1 ⟨t, ht, rfl⟩
    exact ⟨e, List.mem_append_left [] he, hp⟩
  refine ⟨h.isTree, fun t ht => (Entry.of_mem_tombstones ht).1,
    fun t ht => (Entry.of_mem_tombstones ht).2, ?_, ?_, ?_, ?_⟩
  · intro t ht
    obtain ⟨e, he, hp⟩ := hvisited t ht
    refine hp ▸ (h.isSome_at? e he).resolve_left ?_
    simp [hp, (Entry.of_mem_tombstones ht).2]
  · intro t ht
    obtain ⟨e, he, hp⟩ := hvisited t ht
    exact hp ▸ h.isUnder e he
  · have hsorted := h.sorted
    rw [List.append_nil] at hsorted
    exact Entry.pairwise_tombstones hsorted
  · intro p hp hu
    refine Entry.exists_mem_tombstones.2 ⟨?_, hp.isRoot⟩
    rcases h.complete p hp hu with he | ⟨e, he, -⟩
    · exact he
    · simp at he

/-- Nothing is live at or below a path. -/
def DeadUnder (items : Items) (path : Path) : Prop :=
  ∀ p, p.isUnder path = true → ¬ items.IsLive p

theorem Wanes.deadUnder (h : items.Wanes items') (hdead : items.DeadUnder path) :
    items'.DeadUnder path :=
  fun p hp hlive => hdead p hp (h.isLive hlive)

theorem Doomed.deadUnder (h : items.Doomed path now []) : items.DeadUnder path := by
  intro p hp hlive
  obtain ⟨t, ht, -⟩ := h.complete p hlive hp
  simp at ht

/-- In a tree, nothing is live below a dead path that is no root. -/
theorem IsTree.deadUnder (htree : items.IsTree) (hr : path.isRoot = false)
    (hdead : ¬ items.IsLive path) : items.DeadUnder path := by
  intro p hp hlive
  have hne : p ≠ path := by
    rintro rfl
    exact hdead hlive
  exact hdead (isLive_of_kind? (htree p hlive path (Path.mem_ancestors_of_isUnder hp hne hr)))

/-- What a walk knows before its first visit. -/
theorem IsTree.walked {start : Items} {owner : String} {root : Entry} (htree : items.IsTree)
    (hkeys : ∀ key, (items.item? key).isSome = (start.item? key).isSome)
    (hroot : (items.lookup? owner path).filter Entry.isLive = some root) :
    start.Walked items path [] [root] := by
  obtain ⟨hpath, hlive, hdir⟩ := of_filter_lookup? hroot
  have hone {P : Entry → Prop} (h : P root) : ∀ e ∈ [] ++ [root], P e := by simpa using h
  refine ⟨htree, hkeys, Entry.isQueue_singleton root, List.pairwise_singleton .., ?_, ?_, ?_, ?_⟩
  · exact hone (hpath ▸ Path.isUnder_refl root.path)
  · refine hone ?_
    rw [hpath]
    refine hlive.symm.imp_right fun hlive => ?_
    obtain ⟨item, hat, -⟩ := (Option.any_eq_true _ _).1 (isLive_iff_any.1 hlive)
    rw [hat]
    rfl
  · refine hone fun h => hdir.2 ?_
    rwa [← hpath]
  · intro p _ hu
    exact .inr ⟨root, by simp, hpath ▸ hu⟩

end Items

/-- Tombstones are stored from the front, while the items wane. -/
theorem waning_stores (path : Path) (now : Int64) :
    waning.Stores fun ts items => items.Doomed path now ts where
  isRoot h := h.isRoot
  stable _ _ _ hwanes h := h.of_wanes hwanes
  store h := h.storeAll_take

/-- Burying what a walk has visited leaves a tree, whatever others delete meanwhile, and nothing live
under the path of the walk if it succeeds. -/
theorem Store.always_bury_amid {s : Store} {m : Memory} {start : Items} {es : List Entry}
    (hx : Kept (fun items => start.Walked items path es []) x) :
    (perform .now >>= fun now =>
      s.writeEntries [] (Entry.tombstones es now) >>= fun _ => pure (some ())).Always
        (amid s.table waning) m x fun r _ x' =>
          EndsIn (fun _ => Kept fun items => items.IsTree ∧ items.DeadUnder path)
            (Kept Items.IsTree) r x' := by
  rw [always_bind, always_perform, Program.always_now]
  intro now _
  refine (always_storeEntries_amid (waning_stores path now)
    (hx.imp fun _ h => h.doomed now)).bind ?_ ?_
  · intro _ m' x' h
    exact Kept.imp h fun _ h => ⟨h.isTree, h.deadUnder⟩
  · intro _ m' x' h
    exact Kept.imp h fun _ ⟨_, h⟩ => h.isTree

/-- The deletion of a subtree leaves a tree, whatever others delete meanwhile, and nothing live under
its path if it succeeds. It takes a visit for each item and two more at most. -/
theorem Store.always_deleteSubtree?_amid {s : Store} {m : Memory} {visits : Nat} {start : Items}
    (path : Path) (htree : start.IsTree) (hvisits : start.size + 2 ≤ visits) :
    (s.deleteSubtree? visits path).Always (amid s.table waning) m (some start, True) fun r _ x =>
      EndsIn (fun _ => Kept fun items => items.IsTree ∧ items.DeadUnder path) (Kept Items.IsTree)
        r x := by
  have hstable : waning.Stable fun items =>
      items.IsTree ∧ ∀ key, (items.item? key).isSome = (start.item? key).isSome :=
    Drift.Stable.and waning_stable_isTree fun _ _ hwanes h key =>
      (hwanes.isSome_item? key).trans (h key)
  have hstart : Kept (fun items =>
      items.IsTree ∧ ∀ key, (items.item? key).isSome = (start.item? key).isSome)
        (some start, True) := ⟨trivial, start, rfl, htree, fun _ => rfl⟩
  have hfail {x : Option Items × Prop} (hx : Kept (fun items =>
      items.IsTree ∧ ∀ key, (items.item? key).isSome = (start.item? key).isSome) x) :
        Kept Items.IsTree x := hx.imp fun _ => And.left
  unfold deleteSubtree?
  refine always_bound_bind_amid hstable hstart (fun _ => hfail) ?_
  intro _ m' x hx
  refine (always_get_amid hstable path hx).bind ?_ fun _ _ _ => hfail
  intro e m'' x' h
  split
  · rename_i hnone
    refine Kept.imp h ?_
    rintro items ⟨⟨htree, -⟩, rfl⟩
    have hdead := Items.filter_lookup?_eq_none hnone
    refine ⟨htree, htree.deadUnder ?_ fun h => hdead (.inl h)⟩
    simpa using fun hr => hdead (.inr hr)
  · rename_i root hroot
    have hwalked : Kept (fun items => start.Walked items path [] [root]) x' := by
      refine Kept.imp h ?_
      rintro items ⟨⟨htree, hkeys⟩, rfl⟩
      exact htree.walked hkeys hroot
    have hcount : start.toVisit [root] ≤ visits := by
      have hle := start.toVisit_le [root]
      have hone : [root].countP (fun e => e.path.isRoot) ≤ [root].length := List.countP_le_length
      simp only [List.length_singleton] at hone
      omega
    refine (Walk.always_collect?_amid visits [] [root] m'' hwalked hcount).bind ?_ fun _ _ _ h => h
    intro found m₃ x₃ h
    obtain ⟨-, _, -, es, rfl, -⟩ := id h
    have hwalked : Kept (fun items => start.Walked items path es []) x₃ := by
      refine Kept.imp h ?_
      rintro items ⟨_, ⟨⟩, h⟩
      exact h
    exact always_bury_amid hwalked

/-- Stores that delete subtrees can live with each other. -/
def deletion (t : String) : Discipline t where
  drift := waning
  Allows c := ∃ path, c = .deleteSubtree path
  Inv := Items.IsTree
  Done c r items := ∀ path, c = .deleteSubtree path → r = .ok () → items.DeadUnder path
  stable_inv := waning_stable_isTree
  stable_done _ _ _ _ hwanes hdone path hc hr := hwanes.deadUnder (hdone path hc hr)
  perform := by
    rintro s rfl _ ⟨path, rfl⟩ m visits items htree hvisits
    refine (s.always_deleteSubtree?_amid path htree hvisits).bind ?_ ?_
    · intro _ m' x h
      refine Kept.imp h ?_
      rintro items ⟨htree, hdead⟩
      exact ⟨htree, fun path' hpath' _ => by cases hpath'; exact hdead⟩
    · intro e m' x h
      exact Kept.imp h fun _ htree => ⟨htree, nofun⟩

/-- **Concurrent deletions.** Let every live path of a table have live directories above it, and let
any number of stores delete subtrees at the table, which may overlap. After every step of theirs, in
whatever order they take them and whatever goes wrong with each, every live path has live directories
above it, and nothing is live at or below the path of a deletion that has returned with success. -/
theorem Crew.isTree_steps {crew crew' : Crew} {t : String} {items : Items}
    (hbegins : crew.Begins t) (hitems : crew.service.items? t = some items)
    (htree : ∀ p, items.IsLive p → ∀ q ∈ p.ancestors, items.kind? q = some .directory)
    (hdeletes : ∀ w ∈ crew.workers, ∀ c ∈ w.later, ∃ path, c = .deleteSubtree path)
    (hsteps : crew.Steps crew') :
    ∃ items', crew'.service.items? t = some items' ∧
      (∀ p, items'.IsLive p → ∀ q ∈ p.ancestors, items'.kind? q = some .directory) ∧
      ∀ w ∈ crew'.workers, ∀ path, (.deleteSubtree path, .ok ()) ∈ w.finished →
        ∀ p, p.isUnder path = true → ¬ items'.IsLive p := by
  obtain ⟨items', hitems', htree', hdone⟩ :=
    (deletion t).holds_steps hbegins hitems htree hdeletes hsteps
  refine ⟨items', hitems', htree', ?_⟩
  intro w hw path hpath
  exact hdone w hw _ hpath path rfl rfl

namespace Sample

/-- Two stores that are about to delete the directory with its file, and the file. -/
def deleters : Crew where
  service := (stage.run store [putFile]).host.state
  workers := [
    { store := store, memory := stage.memory, later := [.deleteSubtree directory] },
    { store := store, memory := stage.memory, later := [.deleteSubtree file] }]

/-- The first store lists the directory, and then the second deletes the file. The first store sends a
batch for both, of which one write is left out. -/
def deleterTurns : List Turn :=
  [⟨0, 0⟩, ⟨0, 0⟩, ⟨0, 0⟩, ⟨1, 0⟩, ⟨1, 0⟩, ⟨1, 0⟩, ⟨1, 0⟩, ⟨1, 0⟩, ⟨0, 0⟩, ⟨0, 1⟩]

/-- The second store has returned, while the first is still at work. -/
theorem isTree_steps_deleters :
    ∃ items items', deleters.Begins store.table ∧
    deleters.service.items? store.table = some items ∧
    (∀ p, items.IsLive p → ∀ q ∈ p.ancestors, items.kind? q = some .directory) ∧
    (∀ w ∈ deleters.workers, ∀ c ∈ w.later, ∃ path, c = .deleteSubtree path) ∧
    deleters.Steps (deleters.turns deleterTurns) ∧
    (deleters.turns deleterTurns).workers.map (fun w => w.finished.length) = [0, 1] ∧
    (deleters.turns deleterTurns).service.items? store.table = some items' ∧
    (∀ p, items'.IsLive p → ∀ q ∈ p.ancestors, items'.kind? q = some .directory) ∧
    ∀ w ∈ (deleters.turns deleterTurns).workers, ∀ path,
      (.deleteSubtree path, .ok ()) ∈ w.finished →
        ∀ p, p.isUnder path = true → ¬ items'.IsLive p := by
  have hput : ∀ x ∈ [putFile], x.call.Suits kindOf := by
    simp only [List.forall_mem_cons]
    exact ⟨suits_putFile, nofun⟩
  obtain ⟨items, hitems, hsuits⟩ := Stage.suits_run isMade_stage [putFile] hput
  have hbegins : deleters.Begins store.table :=
    ⟨by simp [deleters], by simp [deleters], by simp [deleters]⟩
  have hdeletes : ∀ w ∈ deleters.workers, ∀ c ∈ w.later, ∃ path, c = .deleteSubtree path := by
    simp [deleters]
  have hsteps := deleters.steps_turns deleterTurns
  obtain ⟨items', hitems', htree', hdead⟩ :=
    Crew.isTree_steps hbegins hitems hsuits.isTree hdeletes hsteps
  exact ⟨items, items', hbegins, hitems, hsuits.isTree, hdeletes, hsteps, by decide +kernel,
    hitems', htree', hdead⟩

end Sample

end TableTree
