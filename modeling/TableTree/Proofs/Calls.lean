import TableTree.Proofs.Subtree
import TableTree.Proofs.Tree.Missing
import TableTree.Proofs.Tree.WithAncestors

/-!
# The writes of a call

Each call that changes the tree comes down to a list of writes that the items and the time
determine. Whatever goes wrong on the way, the call does them from the front, and all of them if it
succeeds.

Results:

* `Call`, `Call.perform`: the calls that change the tree.
* `Call.writes`: what a call writes.
* `Call.always_perform`: a call commits what it writes.
-/

namespace TableTree

open Operation

/-- A call that changes the tree. -/
inductive Call
  | put (e : Entry)
  | putAll (es : List Entry)
  | putListing (l : Listing)
  | move (deletes : Option (List Path)) (creates : Option (List Entry))
  | delete (path : Path)
  | forget (path : Path)
  | deleteSubtree (path : Path)
  | prune (before : Int64)

/-- The directory that is stored with a listing. -/
def Listing.directory (l : Listing) (owner : String) : Entry :=
  { Entry.directory l.path owner with emptiness := l.emptiness }

namespace Call

/-- A call on a store. A deletion of a subtree may take so many visits. -/
def perform (s : Store) (visits : Nat) : Call → Operation Unit
  | .put e => s.put e
  | .putAll es => s.putAll es
  | .putListing l => s.putListing l
  | .move deletes creates => s.move deletes creates
  | .delete path => s.delete path
  | .forget path => s.forget path
  | .deleteSubtree path => do
    let _ ← s.deleteSubtree? visits path
    pure ()
  | .prune before => do
    let _ ← s.prune before
    pure ()

/-- The entries that a call stores, in their order. -/
def entries (owner : String) (items : Items) (now : Int64) : Call → List Entry
  | .put e => items.withMissing owner e
  | .putAll es => Entry.withAncestors es owner
  | .putListing l =>
    Entry.keepLast (items.withMissing owner (l.directory owner) ++
      l.entries.filter fun e => !e.path.isRoot)
  | .move deletes creates =>
    Entry.keepLast (Entry.withAncestors (creates.getD []) owner ++
      ((deletes.getD []).filter fun p => !p.isRoot).map (Entry.tombstone · now))
  | .delete path => if path.isRoot then [] else [.tombstone path now]
  | .deleteSubtree path =>
    Entry.tombstones ((items.snapshot? owner (items.size + 2) path).getD []) now
  | .forget _ | .prune _ => []

/-- The keys whose items a call removes, in their order. -/
def removals (items : Items) : Call → List Key
  | .forget path => path.key?.toList
  | .prune before =>
    ((Items.select items.all (some (.expired before))).map Item.key).filter fun key =>
      key.path?.isSome
  | _ => []

/-- The writes of a call. -/
def writes (owner : String) (items : Items) (now : Int64) (c : Call) : List Write :=
  (c.removals items).map .delete ++ Entry.writes (c.entries owner items now)

/-- No call stores an entry at a root. -/
theorem isRoot_of_mem_entries {owner : String} {items : Items} {now : Int64} {c : Call} {e : Entry}
    (h : e ∈ c.entries owner items now) : e.path.isRoot = false := by
  cases c with
  | put d => exact (Items.of_mem_withMissing h).1
  | putAll es => exact (Entry.of_mem_withAncestors h).1
  | putListing l =>
    rcases List.mem_append.1 (Entry.mem_of_mem_keepLast h) with h | h
    · exact (Items.of_mem_withMissing h).1
    · simpa using (List.mem_filter.1 h).2
  | move deletes creates =>
    rcases List.mem_append.1 (Entry.mem_of_mem_keepLast h) with h | h
    · exact (Entry.of_mem_withAncestors h).1
    · obtain ⟨p, hp, rfl⟩ := List.mem_map.1 h
      simpa using (List.mem_filter.1 hp).2
  | delete path =>
    simp only [entries] at h
    split at h
    · simp at h
    · rename_i hr
      rw [List.mem_singleton.1 h]
      simpa using hr
  | deleteSubtree path => exact (Entry.of_mem_tombstones h).2
  | forget path => simp [entries] at h
  | prune before => simp [entries] at h

end Call

/-! ## Single writes -/

/-- A single write under the policy commits it. -/
theorem Client.always_retry_write {c : Client} {operation target t : String} {idempotent : Bool}
    {time : Int64} {m : Memory} {items : Items} {w : Write}
    {attempt : Program (Except ServiceError Unit)}
    (h : attempt.Always (tableWorld t time) (some items) (Changes (some items) (·.apply w))) :
    (c.retry operation target idempotent attempt).Always (tableWorld t time) m (some items)
      fun r _ st => Commits items [w] r st := by
  refine (Client.always_retry (Q := fun _ st => st = some (items.apply w)) (I := (· = some items))
    ?_ m rfl).imp fun r _ st hr => ?_
  · rintro _ rfl
    refine h.imp ?_
    intro r st hr
    cases r with
    | ok a =>
      obtain ⟨_, ⟨⟩, hst⟩ := hr
      exact hst
    | error e => exact hr
  · cases r with
    | ok a => exact hr
    | error e => exact ⟨0, hr⟩

/-! ## The calls of a store -/

namespace Store

variable {s : Store} {time : Int64} {items : Items}

theorem always_put (e : Entry) (m : Memory) :
    (s.put e).Always (tableWorld s.table time) m (some items) fun r _ st =>
      Commits items (Entry.writes (items.withMissing s.owner e)) r st := by
  unfold put
  refine always_bound_bind ⟨0, rfl⟩ ?_
  intro _ m'
  refine (always_withMissingAncestors items e).thenCommits ?_
  rintro es m'' _ ⟨rfl, rfl⟩
  exact (always_storeEntries fun d hd => (Items.of_mem_withMissing hd).1).discard

theorem always_putAll (es : List Entry) (m : Memory) :
    (s.putAll es).Always (tableWorld s.table time) m (some items) fun r _ st =>
      Commits items (Entry.writes (Entry.withAncestors es s.owner)) r st := by
  unfold putAll
  refine always_bound_bind ⟨0, rfl⟩ ?_
  intro _ m'
  exact (always_storeEntries fun d hd => (Entry.of_mem_withAncestors hd).1).discard

theorem always_putListing (l : Listing) (m : Memory) :
    (s.putListing l).Always (tableWorld s.table time) m (some items) fun r _ st =>
      Commits items (Entry.writes ((Call.putListing l).entries s.owner items time)) r st := by
  unfold putListing
  refine always_bound_bind ⟨0, rfl⟩ ?_
  intro _ m'
  refine (always_withMissingAncestors items (l.directory s.owner)).thenCommits ?_
  rintro above m'' _ ⟨rfl, rfl⟩
  have hroot : ∀ e ∈ (Call.putListing l).entries s.owner items time, e.path.isRoot = false :=
    fun _ => Call.isRoot_of_mem_entries
  exact (always_storeEntries hroot).discard

theorem always_move (deletes : Option (List Path)) (creates : Option (List Entry)) (m : Memory) :
    (s.move deletes creates).Always (tableWorld s.table time) m (some items) fun r _ st =>
      Commits items (Entry.writes ((Call.move deletes creates).entries s.owner items time))
        r st := by
  unfold move
  split
  · rename_i hnone
    obtain ⟨hd, hc⟩ := Bool.and_eq_true_iff.1 hnone
    rw [Option.isNone_iff_eq_none] at hd hc
    subst hd hc
    rw [Call.entries, Option.getD_none, Option.getD_none, Entry.withAncestors_nil]
    exact rfl
  · rw [Entry.elim_withAncestors]
    refine always_bound_bind ⟨0, rfl⟩ ?_
    intro _ m'
    have hroot : ∀ e ∈ (Call.move deletes creates).entries s.owner items time,
        e.path.isRoot = false := fun _ => Call.isRoot_of_mem_entries
    cases deletes with
    | none => exact (always_storeEntries hroot).discard
    | some paths =>
      dsimp only
      rw [always_bind, always_perform, Program.always_now]
      rintro time rfl
      dsimp only
      rw [always_bind, always_pure]
      exact (always_storeEntries hroot).discard

theorem always_delete (path : Path) (m : Memory) :
    (s.delete path).Always (tableWorld s.table time) m (some items) fun r _ st =>
      Commits items (Entry.writes ((Call.delete path).entries s.owner items time)) r st := by
  unfold delete
  refine always_bound_bind ⟨0, rfl⟩ ?_
  intro _ m'
  simp only [Call.entries]
  cases hr : path.isRoot with
  | true => exact rfl
  | false =>
    obtain ⟨key, hkey⟩ := Path.exists_key?_of_isRoot hr
    simp only [Bool.false_eq_true, if_false]
    rw [always_bind, always_perform, Program.always_now]
    rintro time rfl
    have hitem : (Entry.tombstone path time).item = _ := Entry.item_of_key? hkey
    dsimp only
    rw [hitem, always_ofPath_ok]
    refine (Client.always_retry_write (w := .put ((Entry.tombstone path time).itemAt key))
      ?_).imp fun r _ st h => ?_
    · rw [Program.always_ask]
      exact fun answer st' h => served_of_answers (r := .putItem s.table _) rfl h
    · rw [Entry.writes, List.filterMap_cons, Entry.item?_of_key? (e := .tombstone path time) hkey]
      exact h

theorem always_forget (path : Path) (m : Memory) :
    (s.forget path).Always (tableWorld s.table time) m (some items) fun r _ st =>
      Commits items (((Call.forget path).removals items).map .delete) r st := by
  unfold forget
  refine always_bound_bind ⟨0, rfl⟩ ?_
  intro _ m'
  simp only [Call.removals]
  cases hr : path.isRoot with
  | true =>
    rw [Path.key?_eq_none_iff.2 hr]
    exact rfl
  | false =>
    obtain ⟨key, hkey⟩ := Path.exists_key?_of_isRoot hr
    simp only [Bool.false_eq_true, if_false]
    rw [Path.key_of_key? hkey, always_ofPath_ok, hkey]
    refine Client.always_retry_write ?_
    rw [Program.always_ask]
    exact fun answer st' h => served_of_answers (r := .deleteItem s.table key) rfl h

theorem always_removeSlices (parts : List (List Key)) (m : Memory) (items : Items) :
    (s.removeSlices parts).Always (tableWorld s.table time) m (some items) fun r _ st =>
      Commits items (parts.flatten.map .delete) r st := by
  induction parts generalizing m items with
  | nil => exact rfl
  | cons keys parts ih =>
    rw [removeSlices, List.flatten_cons, List.map_append]
    refine Client.always_pause_bind ?_ fun _ => commits_error
    refine (always_writeEntries keys (fun e he => absurd he List.not_mem_nil)).bind ?_ ?_
    · intro _ m' st h
      rw [Entry.writes_nil, List.append_nil] at h
      obtain rfl : st = some (items.applyAll (keys.map .delete)) := h
      refine (ih m' _).bind ?_ ?_
      · intro _ m'' st h
        exact h.cons_append
      · intro e m'' st h
        exact h.cons_append
    · intro e m' st h
      rw [Entry.writes_nil, List.append_nil] at h
      exact h.of_error

theorem always_prune (before : Int64) (m : Memory) :
    (s.prune before).Always (tableWorld s.table time) m (some items) fun r _ st =>
      Commits items (((Call.prune before).removals items).map .delete) r st := by
  unfold prune
  refine always_bound_bind ⟨0, rfl⟩ ?_
  intro _ m'
  refine (Client.always_retry_reads (r := .scan s.table (some (.expired before))) rfl
    fun _ _ h => h).thenCommits ?_
  rintro expired m'' _ ⟨rfl, _, ⟨⟩, rfl⟩
  refine (always_removeSlices _ m'' items).imp ?_
  intro r _ st h
  rwa [slices_flatten] at h

end Store

/-- A call commits what it writes. -/
theorem Call.always_perform {s : Store} {time : Int64} {items : Items} (c : Call) (m : Memory) :
    (c.perform s (items.size + 2)).Always (tableWorld s.table time) m (some items) fun r _ st =>
      Commits items (c.writes s.owner items time) r st := by
  have hremove {x : Operation Unit} (h : c.entries s.owner items time = [])
      (hx : x.Always (tableWorld s.table time) m (some items) fun r _ st =>
        Commits items ((c.removals items).map .delete) r st) :
      x.Always (tableWorld s.table time) m (some items) fun r _ st =>
        Commits items (c.writes s.owner items time) r st := by
    rw [writes, h, Entry.writes_nil, List.append_nil]
    exact hx
  cases c with
  | put e => exact s.always_put e m
  | putAll es => exact s.always_putAll es m
  | putListing l => exact s.always_putListing l m
  | move deletes creates => exact s.always_move deletes creates m
  | delete path => exact s.always_delete path m
  | forget path => exact hremove rfl (s.always_forget path m)
  | deleteSubtree path =>
    have hvisits : items.size < items.size + 2 := by omega
    obtain ⟨es, hes⟩ := Items.exists_snapshot?_eq s.owner path hvisits
    have hwrites : (Call.deleteSubtree path).writes s.owner items time =
        Entry.writes (Entry.tombstones es time) := by
      simp only [writes, removals, entries, hes, Option.getD_some, List.map_nil, List.nil_append]
    rw [hwrites]
    exact (s.always_deleteSubtree? hes).bind (fun _ _ _ h => h.1) fun _ _ _ h => h.1
  | prune before =>
    exact hremove rfl (s.always_prune before m).discard

end TableTree
