import TableTree.BulkWrite
import TableTree.Proofs.Calls

/-!
# Writes with different keys

The service refuses a batch that has two writes for one key. The entries that a call stores have
different paths, so no batch of it has.

Results:

* `Items.pairwise_walk`: a walk visits each path once.
* `Call.pairwise_entries`: a call stores one entry for each path.
* `Entry.nodup_writes`: the writes of such entries have different keys.
* `sublist_of_mem_slices`: so have the writes of a slice.
-/

namespace TableTree

/-! ## Visits -/

/-- A walk visits each path once. -/
theorem Items.pairwise_walk {items : Items} {owner : String} {visits : Nat} {queue es : List Entry}
    (hqueue : Entry.IsQueue queue) (h : items.walk owner visits queue = some es) :
    es.Pairwise fun d e => d.path ≠ e.path := by
  fun_induction walk items owner visits queue generalizing es with
  | case1 visits =>
    cases h
    exact .nil
  | case2 => cases h
  | case3 visits e queue ih =>
    obtain ⟨es', hes', rfl⟩ := Option.map_eq_some_iff.1 h
    refine List.pairwise_cons.2 ⟨?_, ih (hqueue.visit (childrenOf_expand e)) hes'⟩
    intro x hx hp
    -- no later visit is to the path, which is under nothing in the queue
    obtain ⟨c, hc, hreach⟩ := (mem_walk_iff hes').1 hx
    have hu : e.path.isUnder c.path = true := hp ▸ hreach.isUnder
    rw [hqueue.not_isUnder_of_mem (childrenOf_expand e) hc] at hu
    cases hu

/-- A snapshot has each path once. -/
theorem Items.pairwise_path_snapshot {items : Items} {owner : String} {visits : Nat} {path : Path}
    {es : List Entry} (h : items.snapshot? owner visits path = some es) :
    es.Pairwise fun d e => d.path ≠ e.path := by
  unfold snapshot? at h
  split at h
  · cases h
    exact .nil
  · exact pairwise_walk (Entry.isQueue_singleton _) h

/-! ## Entries -/

namespace Entry

variable {es : List Entry} {owner : String} {now : Int64}

theorem pairwise_path_tombstones (h : es.Pairwise fun d e => d.path ≠ e.path) :
    (tombstones es now).Pairwise fun d e => d.path ≠ e.path := by
  rw [tombstones, List.pairwise_map]
  exact List.Pairwise.filter _ (List.pairwise_reverse.2 (h.imp Ne.symm))

/-- Entries in strict order have different paths. -/
theorem pairwise_path_of_compareByDepth
    (h : es.Pairwise fun d e => Path.compareByDepth d.path e.path = .lt) :
    es.Pairwise fun d e => d.path ≠ e.path := by
  refine h.imp ?_
  intro d e hlt hp
  have hself : Path.compareByDepth e.path e.path = .eq := Std.ReflCmp.compare_self
  rw [hp, hself] at hlt
  cases hlt

/-- A list with ancestors has each path once. -/
theorem pairwise_path_withAncestors (es : List Entry) :
    (withAncestors es owner).Pairwise fun d e => d.path ≠ e.path :=
  pairwise_path_of_compareByDepth (pairwise_compareByDepth_withAncestors es)

/-- The writes of entries with different paths have different keys. -/
theorem nodup_writes (h : es.Pairwise fun d e => d.path ≠ e.path) :
    ((writes es).map Write.key).Nodup := by
  rw [writes, List.map_map, List.Nodup, List.pairwise_map, List.pairwise_filterMap]
  refine h.imp ?_
  intro d e hne x hx y hy hxy
  obtain ⟨k, hk, rfl⟩ := Option.map_eq_some_iff.1 hx
  obtain ⟨l, hl, rfl⟩ := Option.map_eq_some_iff.1 hy
  have hkl : k = l := by simpa [Write.key] using hxy
  exact hne (Path.key?_injective hk (hkl ▸ hl))

end Entry

/-- The entry and the stand-ins for its missing ancestors have different paths. -/
theorem Items.pairwise_withMissing {items : Items} {owner : String} (e : Entry) :
    (items.withMissing owner e).Pairwise fun d e => d.path ≠ e.path := by
  refine List.pairwise_append.2 ⟨pairwise_standIns e.path, ?_, ?_⟩
  · split
    · exact .nil
    · exact List.pairwise_singleton ..
  · intro d hd c hc
    split at hc
    · exact absurd hc List.not_mem_nil
    · rw [List.mem_singleton.1 hc]
      exact Path.ne_of_mem_ancestors (path_mem_ancestors_of_mem_standIns hd)

/-- A call stores one entry for each path. -/
theorem Call.pairwise_entries {owner : String} {items : Items} {now : Int64} (c : Call) :
    (c.entries owner items now).Pairwise fun d e => d.path ≠ e.path := by
  cases c with
  | put e => exact Items.pairwise_withMissing e
  | putAll es => exact Entry.pairwise_path_withAncestors es
  | putListing l => exact Entry.pairwise_keepLast _
  | move deletes creates => exact Entry.pairwise_keepLast _
  | delete path =>
    rw [entries]
    split
    · exact .nil
    · exact List.pairwise_singleton ..
  | deleteSubtree path =>
    obtain ⟨es, hes⟩ := Items.exists_snapshot?_eq owner path (Nat.lt_add_of_pos_right Nat.two_pos)
    rw [entries, hes]
    exact Entry.pairwise_path_tombstones (Items.pairwise_path_snapshot hes)
  | forget path => exact .nil
  | prune before => exact .nil

/-! ## Slices -/

/-- A slice has elements of the list in their order. -/
theorem sublist_of_mem_slices {α : Type} {limit : Nat} {xs slice : List α}
    (h : slice ∈ slices limit xs) : slice.Sublist xs := by
  fun_induction slices limit xs with
  | case1 => simp at h
  | case2 xs _ ih =>
    rcases List.mem_cons.1 h with rfl | h
    · exact List.take_sublist ..
    · exact (ih h).trans (List.drop_sublist ..)

end TableTree
