import TableTree.Proofs.Tree.Tombstones
import TableTree.Proofs.Walk.Collect
import TableTree.Proofs.Walk.Reach

/-!
# Deleting a subtree

The deletion of a subtree buries what live directories connect to its path. It starts at the deepest
paths, so what a deletion that fails half way leaves of a tree is a tree.

Results:

* `Items.snapshot?`, `Items.exists_mem_snapshot_iff`: what a deletion visits.
* `Items.buried_take_snapshot`: any number of the tombstones, from the front, leaves a tree.
* `Store.always_deleteSubtree?`: a deletion commits the tombstones for a snapshot.
-/

namespace TableTree

open Operation

/-- The tombstones for visited entries, the last visit first; a root gets none. -/
def Entry.tombstones (es : List Entry) (now : Int64) : List Entry :=
  (es.reverse.filter fun e => !e.path.isRoot).map fun e => .tombstone e.path now

namespace Entry

variable {es : List Entry} {now : Int64}

theorem of_mem_tombstones {t : Entry} (h : t ∈ tombstones es now) :
    t = .tombstone t.path now ∧ t.path.isRoot = false := by
  obtain ⟨e, he, rfl⟩ := List.mem_map.1 h
  exact ⟨rfl, by simpa using (List.mem_filter.1 he).2⟩

theorem exists_mem_tombstones {p : Path} :
    (∃ t ∈ tombstones es now, t.path = p) ↔ (∃ e ∈ es, e.path = p) ∧ p.isRoot = false := by
  constructor
  · rintro ⟨t, ht, rfl⟩
    refine ⟨?_, (of_mem_tombstones ht).2⟩
    obtain ⟨e, he, rfl⟩ := List.mem_map.1 ht
    exact ⟨e, List.mem_reverse.1 (List.mem_filter.1 he).1, rfl⟩
  · rintro ⟨⟨e, he, rfl⟩, hr⟩
    refine ⟨.tombstone e.path now, List.mem_map.2 ⟨e, List.mem_filter.2 ⟨?_, ?_⟩, rfl⟩, rfl⟩
    · exact List.mem_reverse.2 he
    · simp [hr]

/-- After visits with shallower paths first, the tombstones have deeper paths first. -/
theorem pairwise_tombstones (h : es.Pairwise fun d e => d.path.depth ≤ e.path.depth) :
    (tombstones es now).Pairwise fun t u => u.path.depth ≤ t.path.depth := by
  rw [tombstones, List.pairwise_map]
  exact List.Pairwise.filter _ (List.pairwise_reverse.2 h)

end Entry

namespace Items

variable {items : Items} {owner : String} {visits : Nat} {path : Path} {es : List Entry}

/-- What a deletion visits: nothing if the path is dead, and else all that a walk from it visits. -/
def snapshot? (items : Items) (owner : String) (visits : Nat) (path : Path) :
    Option (List Entry) :=
  match (items.lookup? owner path).filter Entry.isLive with
  | none => some []
  | some root => items.walk owner visits [root]

/-- The entry of a path, if it is live, is what the items say. -/
theorem of_filter_lookup? {e : Entry}
    (h : (items.lookup? owner path).filter Entry.isLive = some e) :
    e.path = path ∧ (items.IsLive path ∨ path.isRoot = true) ∧
      (e.isDir = true ↔ items.IsDirectory path) := by
  obtain ⟨he, hl⟩ := Option.filter_eq_some_iff.1 h
  unfold lookup? at he
  cases hr : path.isRoot with
  | true =>
    rw [hr, if_pos rfl] at he
    cases he
    exact ⟨rfl, .inr rfl, iff_of_true rfl (.inl hr)⟩
  | false =>
    rw [hr, if_neg Bool.false_ne_true] at he
    obtain ⟨item, hat, hof⟩ := Option.bind_eq_some_iff.1 he
    obtain ⟨hpath, hkind, -⟩ := Entry.liveKind?_of_ofItem? hof
    have hpath' : e.path = path :=
      Option.some.inj (hpath.symm.trans (Path.path?_of_key? (key?_of_at? hat).1))
    have hk : items.kind? path = some e.kind := by
      rw [kind?, hat, Option.bind_some, ← hkind, Entry.liveKind?, if_pos hl]
    refine ⟨hpath', .inl (isLive_of_kind? hk), ?_⟩
    rw [IsDirectory, hk, hr, Entry.kind]
    cases e.isDir <;> simp

theorem filter_lookup?_eq_none (h : (items.lookup? owner path).filter Entry.isLive = none) :
    ¬ (items.IsLive path ∨ path.isRoot = true) := by
  rw [Option.filter_eq_none_iff] at h
  rintro (hlive | hr)
  · obtain ⟨k, hk⟩ := kind?_of_isLive hlive
    obtain ⟨item, hat, hkind⟩ := Option.bind_eq_some_iff.1 hk
    obtain ⟨e, hof⟩ : ∃ e, Entry.ofItem? item owner = some e := by
      rw [Entry.ofItem?, Path.path?_of_key? (key?_of_at? hat).1]
      exact ⟨_, rfl⟩
    have hek := (Entry.liveKind?_of_ofItem? hof).2.1.trans hkind
    refine h e ?_ (Entry.isLive_of_liveKind? hek).1
    rw [lookup?, hlive.isRoot, if_neg Bool.false_ne_true, hat]
    exact hof
  · refine h (.directory path owner) ?_ rfl
    rw [lookup?, hr, if_pos rfl]

/-- The snapshot has the path and what is connected to it. -/
theorem exists_mem_snapshot_iff (h : items.snapshot? owner visits path = some es) {p : Path} :
    ((∃ e ∈ es, e.path = p) ∧ p.isRoot = false) ↔ items.Connected path p := by
  unfold snapshot? at h
  split at h
  · rename_i hnone
    cases h
    simp only [List.not_mem_nil, false_and, exists_false, false_iff]
    exact fun hc => filter_lookup?_eq_none hnone hc.isLive_or_isRoot
  · rename_i root hroot
    obtain ⟨rfl, hlive, hdir⟩ := of_filter_lookup? hroot
    constructor
    · rintro ⟨⟨x, hx, rfl⟩, hr⟩
      obtain ⟨e, he, hex⟩ := (mem_walk_iff h).1 hx
      cases List.mem_singleton.1 he
      rcases hex.connected hdir with hp | hc
      · rw [hp] at hr ⊢
        refine connected_self (hlive.resolve_right ?_)
        simp [hr]
      · exact hc
    · intro hc
      obtain ⟨x, hx, hp⟩ : ∃ x, items.Reaches owner root x ∧ x.path = p := hc.exists_reaches hdir
      have hm : x ∈ es := (mem_walk_iff h).2 ⟨root, List.mem_singleton_self root, hx⟩
      exact ⟨⟨x, hm, hp⟩, hc.isLive.isRoot⟩

theorem pairwise_snapshot (h : items.snapshot? owner visits path = some es) :
    es.Pairwise fun d e => d.path.depth ≤ e.path.depth := by
  unfold snapshot? at h
  split at h
  · cases h
    exact .nil
  · exact pairwise_depth_walk h

/-- There is a snapshot once a deletion may take a visit for each item and one more. -/
theorem exists_snapshot?_eq (owner : String) (path : Path) (hvisits : items.size < visits) :
    ∃ es, items.snapshot? owner visits path = some es := by
  unfold snapshot?
  split
  · exact ⟨[], rfl⟩
  · exact Option.ne_none_iff_exists'.1 (walk_singleton_ne_none _ hvisits)

/-- In a tree, all that is live under a path is connected to it. -/
theorem IsTree.connected_iff (h : items.IsTree) {p : Path} :
    items.Connected path p ↔ items.IsLive p ∧ p.isUnder path = true := by
  constructor
  · intro hp
    exact ⟨hp.isLive, hp.isUnder⟩
  · rintro ⟨hlive, hu⟩
    refine ⟨hlive, hu, ?_⟩
    intro q hq _
    exact h p hlive q hq

/-- The tombstones for a snapshot are for what is connected to its path. -/
theorem exists_mem_tombstones_iff {now : Int64}
    (h : items.snapshot? owner visits path = some es) {p : Path} :
    (∃ t ∈ Entry.tombstones es now, t.path = p) ↔ items.Connected path p := by
  rw [Entry.exists_mem_tombstones, exists_mem_snapshot_iff h]

/-- The tombstones for a snapshot bury what is connected to its path. -/
theorem buried_snapshot {now : Int64} (h : items.snapshot? owner visits path = some es) :
    items.Buried (items.storeAll (Entry.tombstones es now)) (items.Connected path) now :=
  (buried_storeAll fun _ ht => (Entry.of_mem_tombstones ht).1).congr fun _ =>
    exists_mem_tombstones_iff h

/-- Of the tombstones for a tree, any number from the front buries with each path all that is live
below it. -/
theorem doomed_of_mem_take {now : Int64} (htree : items.IsTree)
    (h : items.snapshot? owner visits path = some es) (k : Nat) {p q : Path}
    (hp : items.IsLive p) (hq : q ∈ p.ancestors)
    (hqt : ∃ t ∈ (Entry.tombstones es now).take k, t.path = q) :
    ∃ t ∈ (Entry.tombstones es now).take k, t.path = p := by
  obtain ⟨t, ht, rfl⟩ := hqt
  have hconn : items.Connected path t.path :=
    (exists_mem_tombstones_iff h).1 ⟨t, List.mem_of_mem_take ht, rfl⟩
  have hunder := Path.isUnder_trans (Path.isUnder_of_mem_ancestors hq) hconn.isUnder
  obtain ⟨u, hu, rfl⟩ : ∃ u ∈ Entry.tombstones es now, u.path = p :=
    (exists_mem_tombstones_iff h).2 (htree.connected_iff.2 ⟨hp, hunder⟩)
  exact ⟨u, mem_take_of_depth_lt (Entry.pairwise_tombstones (pairwise_snapshot h)) ht hu
    (Path.depth_lt_of_mem_ancestors hq), rfl⟩

/-- Any number of the tombstones for a snapshot, from the front, buries part of what is connected to
its path, and leaves a tree of a tree. -/
theorem buried_take_snapshot {now : Int64} (htree : items.IsTree)
    (h : items.snapshot? owner visits path = some es) (k : Nat) :
    (items.storeAll ((Entry.tombstones es now).take k)).IsTree ∧
      ∃ doomed : Path → Prop, (∀ p, doomed p → items.Connected path p) ∧
        items.Buried (items.storeAll ((Entry.tombstones es now).take k)) doomed now := by
  have hburied : items.Buried (items.storeAll ((Entry.tombstones es now).take k)) _ now :=
    buried_storeAll fun t ht => (Entry.of_mem_tombstones (List.mem_of_mem_take ht)).1
  refine ⟨htree.of_buried hburied fun p hp q hq => doomed_of_mem_take htree h k hp hq, _, ?_,
    hburied⟩
  rintro p ⟨t, ht, rfl⟩
  exact (exists_mem_tombstones_iff h).1 ⟨t, List.mem_of_mem_take ht, rfl⟩

end Items

namespace Store

variable {s : Store} {time : Int64} {m : Memory} {items : Items}

/-- The deletion commits the tombstones for a snapshot of the subtree. -/
theorem always_deleteSubtree? {visits : Nat} {path : Path} {es : List Entry}
    (hes : items.snapshot? s.owner visits path = some es) :
    (s.deleteSubtree? visits path).Always (tableWorld s.table time) m (some items) fun r _ st =>
      Commits items (Entry.writes (Entry.tombstones es time)) r st ∧ r ≠ .ok none := by
  have hfail (e : StoreError) : Commits items (Entry.writes (Entry.tombstones es time))
      (.error e : Except StoreError (Option Unit)) (some items) ∧
        (.error e : Except StoreError (Option Unit)) ≠ .ok none :=
    ⟨commits_error, nofun⟩
  unfold deleteSubtree?
  refine (always_bound items).bind ?_ ?_
  · rintro binding m' _ rfl
    refine (always_get path).bind ?_ ?_
    · rintro e m'' _ ⟨rfl, rfl⟩
      unfold Items.snapshot? at hes
      split
      · rename_i hnone
        rw [hnone] at hes
        cases hes
        exact ⟨rfl, nofun⟩
      · rename_i root hroot
        rw [hroot] at hes
        refine (Walk.always_collect? visits (.start root) m'').bind ?_ ?_
        · rintro found m''' _ ⟨rfl, hfound⟩
          cases hfound.trans hes
          dsimp only
          rw [always_bind, always_perform, Program.always_now]
          rintro _ rfl
          refine (always_storeEntries fun t ht => (Entry.of_mem_tombstones ht).2).bind ?_ ?_
          · rintro _ m'''' st hst
            exact ⟨hst, nofun⟩
          · rintro e m'''' st hst
            exact ⟨hst, nofun⟩
        · rintro e _ _ rfl
          exact hfail e
    · rintro e _ _ rfl
      exact hfail e
  · rintro e _ _ rfl
    exact hfail e

end Store

end TableTree
