import TableTree.Proofs.Consistency

/-!
# The effect of deleting a subtree

Results:

* `Store.deleteSubtree?_effect`: what a deletion leaves of a tree, after success and after failure.
* `Store.isLive_deleteSubtree?_iff`: what is live after a deletion that succeeds, in any table.
-/

namespace TableTree

open Operation

namespace Store

variable {s : Store} {m : Memory} {items : Items}

/-- A deletion commits the tombstones for a snapshot, and never gives none when it may take a visit
for each item and two more. -/
theorem commits_deleteSubtree? {h : Host Service} {visits : Nat} (path : Path)
    (hcalm : h.state.IsCalm) (hitems : h.state.items? s.table = some items)
    (hvisits : h.state.walkBound s.table ≤ visits) :
    ∃ es, items.snapshot? s.owner visits path = some es ∧
      Commits items (Entry.writes (Entry.tombstones es h.now))
        ((s.deleteSubtree? visits path).run Service.backend m h).outcome
        (((s.deleteSubtree? visits path).run Service.backend m h).host.state.items? s.table) ∧
      ((s.deleteSubtree? visits path).run Service.backend m h).outcome ≠ .ok none := by
  have hsize : items.size < visits := by
    rw [Service.walkBound, hitems] at hvisits
    simp only [Option.elim_some] at hvisits
    omega
  obtain ⟨es, hes⟩ := Items.exists_snapshot?_eq s.owner path hsize
  have hdelete : (s.deleteSubtree? visits path).Always (tableWorld s.table h.now) m
      (some items) _ := s.always_deleteSubtree? hes
  rw [← hitems] at hdelete
  exact ⟨es, hes, (hdelete.run (Service.within_tableWorld s.table h.now) hcalm rfl).1⟩

/-- **The effect of deleting a subtree of a tree.** A success leaves tombstones of the time of the
deletion at all live paths at or below the path, and changes nothing else. A failure leaves some of
these tombstones, and a tree. Nothing changes if the path is dead and no root. -/
theorem deleteSubtree?_effect (s : Store) (m : Memory) (h : Host Service) (items : Items)
    (visits : Nat) (path : Path) (hcalm : h.state.IsCalm)
    (hitems : h.state.items? s.table = some items)
    (htree : ∀ p, items.IsLive p → ∀ q ∈ p.ancestors, items.kind? q = some .directory)
    (hvisits : h.state.walkBound s.table ≤ visits) :
    ∃ items',
      ((s.deleteSubtree? visits path).run Service.backend m h).host.state.items? s.table =
        some items' ∧
      (∀ p, items'.IsLive p → ∀ q ∈ p.ancestors, items'.kind? q = some .directory) ∧
      (path.isRoot = false → ¬ items.IsLive path → items' = items) ∧
      match ((s.deleteSubtree? visits path).run Service.backend m h).outcome with
      | .ok done => done = some () ∧
        items.Buried items' (fun p => items.IsLive p ∧ p.isUnder path = true) h.now
      | .error _ => ∃ doomed : Path → Prop,
        (∀ p, doomed p → items.IsLive p ∧ p.isUnder path = true) ∧
          items.Buried items' doomed h.now := by
  have htree : items.IsTree := htree
  obtain ⟨es, hes, hcommits, hdone⟩ := commits_deleteSubtree? (m := m) path hcalm hitems hvisits
  obtain ⟨k, hk⟩ := hcommits.exists_storeAll_take
  obtain ⟨htree', doomed, hdoomed, hburied⟩ := Items.buried_take_snapshot htree hes k
  refine ⟨_, hk, htree', fun hr hdead => hburied.eq_of_forall_not fun p hp => ?_, ?_⟩
  · exact (hdoomed p hp).isLive_or_isRoot.elim hdead (by simp [hr])
  cases hout : ((s.deleteSubtree? visits path).run Service.backend m h).outcome with
  | error e => exact ⟨doomed, fun p hp => htree.connected_iff.1 (hdoomed p hp), hburied⟩
  | ok done =>
    rw [hout] at hcommits hdone
    have hall := Option.some.inj (hk.symm.trans hcommits.storeAll_of_ok)
    refine ⟨?_, ?_⟩
    · cases done with
      | none => exact absurd rfl hdone
      | some _ => rfl
    · rw [hall]
      exact (Items.buried_snapshot hes).congr fun _ => htree.connected_iff

end Store

namespace Sample

/-- The host after the file was stored, with an interruption to come. -/
def interruptedHost : Host Service := (stage.after store putFile).hostOf interruptedDelete

/-- What the deletion of the directory leaves when it is interrupted. -/
theorem deleteSubtree?_effect_interrupted :
    ∃ items, interruptedHost.state.IsCalm ∧ interruptedHost.state.items? store.table = some items ∧
    (∀ p, items.IsLive p → ∀ q ∈ p.ancestors, items.kind? q = some .directory) ∧
    interruptedHost.state.walkBound store.table ≤ 9 ∧
    ∃ items',
      ((store.deleteSubtree? 9 directory).run Service.backend {} interruptedHost).host.state.items?
        store.table = some items' ∧
      (∀ p, items'.IsLive p → ∀ q ∈ p.ancestors, items'.kind? q = some .directory) ∧
      (directory.isRoot = false → ¬ items.IsLive directory → items' = items) ∧
      match ((store.deleteSubtree? 9 directory).run Service.backend {} interruptedHost).outcome with
      | .ok done => done = some () ∧
        items.Buried items' (fun p => items.IsLive p ∧ p.isUnder directory = true)
          interruptedHost.now
      | .error _ => ∃ doomed : Path → Prop,
        (∀ p, doomed p → items.IsLive p ∧ p.isUnder directory = true) ∧
          items.Buried items' doomed interruptedHost.now := by
  have hput : ∀ x ∈ [putFile], x.call.Suits kindOf := by
    simp only [List.forall_mem_cons]
    exact ⟨suits_putFile, nofun⟩
  obtain ⟨items, hitems, hsuits⟩ := Stage.suits_run isMade_stage [putFile] hput
  have hvisits : interruptedHost.state.walkBound store.table ≤ 9 := by decide +kernel
  exact ⟨items, rfl, hitems, hsuits.isTree, hvisits,
    Store.deleteSubtree?_effect store {} interruptedHost items 9 directory rfl hitems hsuits.isTree
      hvisits⟩

end Sample

namespace Store

/-- **What is live after deleting a subtree.** In any table, a live path at or below the path of a
deletion that succeeds stays live exactly when something above it, at or below that path, was no
live directory. -/
theorem isLive_deleteSubtree?_iff (s : Store) (m : Memory) (h : Host Service) (items : Items)
    (visits : Nat) (path : Path) (hcalm : h.state.IsCalm)
    (hitems : h.state.items? s.table = some items)
    (hvisits : h.state.walkBound s.table ≤ visits)
    (hok : ((s.deleteSubtree? visits path).run Service.backend m h).outcome = .ok (some ())) :
    ∃ items',
      ((s.deleteSubtree? visits path).run Service.backend m h).host.state.items? s.table =
        some items' ∧
      ∀ p, p.isUnder path = true →
        (items'.IsLive p ↔ items.IsLive p ∧
          ∃ q ∈ p.ancestors, q.isUnder path = true ∧ items.kind? q ≠ some .directory) := by
  obtain ⟨es, hes, hcommits, -⟩ := commits_deleteSubtree? (m := m) path hcalm hitems hvisits
  rw [hok] at hcommits
  refine ⟨_, hcommits.storeAll_of_ok, fun p hp => ?_⟩
  rw [(Items.buried_snapshot hes).isLive_iff]
  refine and_congr_right ?_
  intro hlive
  constructor
  · intro hconn
    refine Classical.byContradiction fun hnone => hconn ⟨hlive, hp, fun q hq hu => ?_⟩
    exact Classical.byContradiction fun hk => hnone ⟨q, hq, hu, hk⟩
  · rintro ⟨q, hq, hu, hk⟩ hconn
    exact hk (hconn.between q hq hu)

end Store

namespace Sample

/-- The host after the file was stored and its directory deleted alone. -/
def orphanedHost : Host Service := (stage.run store [putFile, deleteDirectory]).hostOf deleteSubtree

/-- What is live after the subtree of the directory is deleted, which was deleted alone before. -/
theorem isLive_deleteSubtree?_iff_orphaned :
    ∃ items, orphanedHost.state.IsCalm ∧ orphanedHost.state.items? store.table = some items ∧
    orphanedHost.state.walkBound store.table ≤ 9 ∧
    ((store.deleteSubtree? 9 directory).run Service.backend {} orphanedHost).outcome =
      .ok (some ()) ∧
    ∃ items',
      ((store.deleteSubtree? 9 directory).run Service.backend {} orphanedHost).host.state.items?
        store.table = some items' ∧
      ∀ p, p.isUnder directory = true →
        (items'.IsLive p ↔ items.IsLive p ∧
          ∃ q ∈ p.ancestors, q.isUnder directory = true ∧ items.kind? q ≠ some .directory) := by
  have hsome : (orphanedHost.state.items? store.table).isSome := by decide +kernel
  obtain ⟨items, hitems⟩ := Option.isSome_iff_exists.1 hsome
  have hvisits : orphanedHost.state.walkBound store.table ≤ 9 := by decide +kernel
  have hok : ((store.deleteSubtree? 9 directory).run Service.backend {} orphanedHost).outcome =
      .ok (some ()) := by decide +kernel
  exact ⟨items, rfl, hitems, hvisits, hok,
    Store.isLive_deleteSubtree?_iff store {} orphanedHost items 9 directory rfl hitems hvisits hok⟩

/-- A file whose directory was deleted alone stays live when the subtree of the directory is
deleted. -/
theorem isLive_file_deleteSubtree :
    stage.IsMade store ∧ Stage.Succeeds store stage [putFile, deleteDirectory, deleteSubtree] ∧
    deleteSubtree.call = .deleteSubtree directory ∧ file.isUnder directory = true ∧
    ∃ items,
      (Stage.run store stage [putFile, deleteDirectory, deleteSubtree]).items? store = some items ∧
      items.IsLive file := by
  have hrun : ((Stage.run store stage [putFile, deleteDirectory, deleteSubtree]).items? store).any
      fun items => items.IsLive file := by decide +kernel
  obtain ⟨items, hitems, hfile⟩ := (Option.any_eq_true _ _).1 hrun
  exact ⟨isMade_stage, by decide +kernel, rfl, by decide, items, hitems, of_decide_eq_true hfile⟩

end Sample

end TableTree
