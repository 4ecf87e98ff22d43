import TableTree.Proofs.Consistency
import TableTree.Proofs.Steady
import TableTree.Proofs.Undisturbed.Store

/-!
# Pruning

A pruning removes the items of paths whose time lies before a given one, in the order of their keys
and nothing else, whatever is throttled, fails or is left out on the way. A directory has no time,
so in a tree it leaves a tree.

Results:

* `Items.mem_removals_prune_iff`: the keys whose items are to be removed.
* `Items.item?_applyAll_delete`: what the removal of keys does to the items.
* `Items.IsTree.of_directories_kept`: a tree is left when no directory goes.
* `Store.always_prune_gave`: the number that a pruning gives.
* `Store.prune_exact`: the effect of a pruning.
-/

namespace TableTree

open Operation

namespace Items

variable {items : Items}

/-! ## The keys to be removed -/

/-- Whether the item of a key is to be removed: the key has a path, and the time of the item is
before the given one. -/
def IsExpired (items : Items) (before : Int64) (key : Key) : Prop :=
  (∃ p, key.path? = some p) ∧ ∃ item t, items.item? key = some item ∧
    item.get? Attribute.modTime = some (.long t) ∧ t < before

theorem key_of_item? {key : Key} {item : Item} (h : items.item? key = some item) :
    item.key = key := by
  obtain ⟨attributes, -, rfl⟩ := Option.map_eq_some_iff.1 h
  rfl

theorem accepts_expired_iff {before : Int64} {item : Item} :
    (Filter.expired before).accepts item = true ↔
      ∃ t, item.get? Attribute.modTime = some (.long t) ∧ t < before := by
  rw [Filter.expired, Filter.accepts, Item.long?]
  cases item.get? Attribute.modTime with
  | none => simp
  | some value => cases value <;> simp

/-- A pruning removes the items that are to be removed. -/
theorem mem_removals_prune_iff {before : Int64} {key : Key} :
    key ∈ (Call.prune before).removals items ↔ items.IsExpired before key := by
  simp only [Call.removals, List.mem_filter, List.mem_map, Option.isSome_iff_exists]
  rw [and_comm, IsExpired]
  refine and_congr_right fun _ => ?_
  constructor
  · rintro ⟨item, hitem, rfl⟩
    obtain ⟨hall, haccepts⟩ := List.mem_filter.1 hitem
    obtain ⟨t, ht, hlt⟩ := accepts_expired_iff.1 (by simpa using haccepts)
    exact ⟨item, t, mem_all.1 hall, ht, hlt⟩
  · rintro ⟨item, t, hitem, ht, hlt⟩
    obtain rfl := key_of_item? hitem
    refine ⟨item, List.mem_filter.2 ⟨mem_all.2 hitem, ?_⟩, rfl⟩
    simpa using accepts_expired_iff.2 ⟨t, ht, hlt⟩

/-- It removes them in the order of their keys. -/
theorem pairwise_removals_prune (items : Items) (before : Int64) :
    ((Call.prune before).removals items).Pairwise fun x y => compare x y = .lt :=
  (List.pairwise_map.2 (items.pairwise_all.filter _)).filter _

/-! ## What a removal leaves -/

/-- Removing keys leaves the items of the others. -/
theorem item?_applyAll_delete (items : Items) (keys : List Key) (key : Key) :
    (items.applyAll (keys.map .delete)).item? key =
      if key ∈ keys then none else items.item? key := by
  induction keys generalizing items with
  | nil => rfl
  | cons k keys ih =>
    rw [List.map_cons, applyAll_cons, ih, item?_apply]
    by_cases hk : k = key
    · simp [Write.key, hk]
    · simp [Write.key, hk, Ne.symm hk]

/-- A tree is left when nothing comes and no directory goes. -/
theorem IsTree.of_directories_kept {items' : Items} (h : items.IsTree)
    (hsub : ∀ key item, items'.item? key = some item → items.item? key = some item)
    (hdirs : ∀ key item, items.item? key = some item → item.isDir = true →
      items'.item? key = some item) : items'.IsTree := by
  intro p hp q hq
  have hlive : items.IsLive p := by
    obtain ⟨kind, hkind⟩ := kind?_of_isLive hp
    obtain ⟨item, hat, hitem⟩ := Option.bind_eq_some_iff.1 hkind
    obtain ⟨hkey, hitem'⟩ := key?_of_at? hat
    refine isLive_of_kind? (k := kind) ?_
    rw [kind?, at?_of_key? items hkey, hsub _ _ hitem', Option.bind_some, hitem]
  obtain ⟨item, hat, hitem⟩ := Option.bind_eq_some_iff.1 (h p hlive q hq)
  obtain ⟨hkey, hitem'⟩ := key?_of_at? hat
  have hdir : item.isDir = true := by
    unfold Item.liveKind? at hitem
    split at hitem
    · by_cases hd : item.isDir = true
      · exact hd
      · rw [if_neg hd] at hitem
        cases hitem
    · cases hitem
  rw [kind?, at?_of_key? items' hkey, hdirs _ _ hitem' hdir, Option.bind_some, hitem]

/-- Where the items of paths are items of entries, no directory is to be removed. -/
theorem IsExpired.isDir_eq_false {before : Int64} {key : Key} (h : items.IsExpired before key)
    (hentries : ∀ key item, items.item? key = some item → (∃ p, key.path? = some p) →
      ∃ e : Entry, e.item? = some item) {item : Item} (hitem : items.item? key = some item) :
    item.isDir = false := by
  obtain ⟨hpath, item', t, hitem', ht, -⟩ := h
  cases hitem.symm.trans hitem'
  obtain ⟨e, he⟩ := hentries key item hitem hpath
  obtain ⟨k, -, rfl⟩ := Option.map_eq_some_iff.1 he
  rw [Entry.isDir_itemAt]
  apply eq_false_of_ne_true
  intro hdir
  have hnone := Entry.long?_modTime_itemAt hdir k
  rw [Item.long?, ht] at hnone
  cases hnone

end Items

/-! ## The number that is given -/

section Numbers

variable {σ : Type} {W : World σ} {m : Memory} {st : σ}

/-- An operation that gives the number `n` if it succeeds. -/
def Gave (n : Nat) : Except StoreError Nat → σ → Prop := EndsIn (fun k _ => k = n) fun _ => True

/-- Writing in batches gives the number of writes. -/
theorem Client.always_writeAll_gave (c : Client) (limit : Nat) (deletes : List Key)
    (puts : List Item) :
    (c.writeAll limit deletes puts).Always W m st fun r _ st' =>
      Gave (deletes.length + puts.length) r st' := by
  unfold writeAll
  refine always_bind_of_forall (fun _ _ _ => ?_) (fun _ _ _ => trivial)
  show (deletes.map Write.delete ++ puts.map Write.put).length = _
  simp

namespace Store

variable {s : Store}

/-- Removing slices of keys gives the number of keys. -/
theorem always_removeSlices_gave (parts : List (List Key)) (m : Memory) (st : σ) :
    (s.removeSlices parts).Always W m st fun r _ st' => Gave parts.flatten.length r st' := by
  induction parts generalizing m st with
  | nil => exact rfl
  | cons keys parts ih =>
    rw [removeSlices, List.flatten_cons, List.length_append]
    refine always_bind_of_forall (fun _ m' st' => ?_) (fun _ _ _ => trivial)
    have hwrite : (s.writeEntries keys []).Always W m' st' fun r _ st'' =>
        Gave (keys.length + 0) r st'' :=
      s.client.always_writeAll_gave s.settings.batchWriteLimit keys []
    refine hwrite.andThen ?_
    rintro _ m'' st'' rfl
    refine (ih m'' st'').andThen ?_
    rintro _ m''' st''' rfl
    exact rfl

/-- A pruning gives the number of keys that it removes. -/
theorem always_prune_gave {time : Int64} {items : Items} (before : Int64) (m : Memory) :
    (s.prune before).Always (tableWorld s.table time) m (some items) fun r _ st =>
      Gave ((Call.prune before).removals items).length r st := by
  unfold prune
  refine always_bound_bind trivial fun _ m' => ?_
  refine (Client.always_retry_reads (r := .scan s.table (some (.expired before))) rfl
    fun _ _ h => h).bind ?_ fun _ _ _ _ => trivial
  rintro expired m'' st ⟨rfl, _, ⟨⟩, rfl⟩
  have hgave := always_removeSlices_gave (s := s) (W := tableWorld s.table time)
    (slices s.settings.batchWriteLimit ((Call.prune before).removals items)) m'' (some items)
  rwa [slices_flatten] at hgave

end Store

end Numbers

/-! ## The effect -/

namespace Store

variable {s : Store} {m : Memory} {h : Host Service} {items : Items}

/-- A pruning removes the first of the keys that are to be removed, and all of them if it succeeds;
it gives their number then. -/
theorem items?_run_prune (hcalm : h.state.IsCalm) (hitems : h.state.items? s.table = some items)
    (before : Int64) :
    ∃ k ≤ ((Call.prune before).removals items).length,
      ((s.prune before).run Service.backend m h).host.state.items? s.table =
        some (items.applyAll ((((Call.prune before).removals items).take k).map .delete)) ∧
      ∀ n, ((s.prune before).run Service.backend m h).outcome = .ok n →
        k = ((Call.prune before).removals items).length ∧
          n = ((Call.prune before).removals items).length := by
  have hprune : (s.prune before).Always (tableWorld s.table h.now) m (some items) _ :=
    s.always_prune before m
  have hgave : (s.prune before).Always (tableWorld s.table h.now) m (some items) _ :=
    s.always_prune_gave before m
  generalize (Call.prune before).removals items = keys at *
  rw [← hitems] at hprune hgave
  have hwithin := Service.within_tableWorld s.table h.now
  replace hprune := (hprune.run hwithin hcalm rfl).1
  replace hgave := (hgave.run hwithin hcalm rfl).1
  cases hr : ((s.prune before).run Service.backend m h).outcome with
  | ok n =>
    rw [hr] at hprune hgave
    refine ⟨keys.length, Nat.le_refl _, ?_, fun n' hn' => ?_⟩
    · rw [List.take_length]
      exact hprune
    · cases hn'
      exact ⟨rfl, hgave⟩
  | error e =>
    rw [hr] at hprune
    obtain ⟨k, hk⟩ := hprune
    refine ⟨min k keys.length, Nat.min_le_right .., ?_, fun _ => nofun⟩
    rw [hk, List.map_take, ← List.take_take, ← List.length_map Write.delete, List.take_length]

/-- **The effect of a pruning.** A store prunes a table with any items, with any throttles, failures
and leftovers planned, a shutdown to come or not, and nobody else writing. The keys to be removed
are those that have a path and whose item was last changed before the given time. The pruning
removes the items of some of them, the first ones in the order of keys, and leaves all other items
as they were. If it succeeds, it has removed all of them, and it gives their number. Where the items
of paths are items of entries, no directory goes, so a tree stays a tree. -/
theorem prune_exact (hcalm : h.state.IsCalm) (hitems : h.state.items? s.table = some items)
    (before : Int64) :
    let run := (s.prune before).run Service.backend m h
    ∃ (expired : List Key) (k : Nat) (items' : Items),
      expired.Pairwise (fun x y => compare x y = .lt) ∧
      (∀ key, key ∈ expired ↔ (∃ p, key.path? = some p) ∧ ∃ item t, items.item? key = some item ∧
        item.get? Attribute.modTime = some (.long t) ∧ t < before) ∧
      run.host.state.items? s.table = some items' ∧
      (∀ key, items'.item? key = if key ∈ expired.take k then none else items.item? key) ∧
      (∀ n, run.outcome = .ok n → k = expired.length ∧ n = expired.length) ∧
      ((∀ key item, items.item? key = some item → (∃ p, key.path? = some p) →
          ∃ e : Entry, e.item? = some item) →
        (∀ key item, items.item? key = some item → item.isDir = true →
          items'.item? key = some item) ∧
        (items.IsTree → items'.IsTree)) := by
  intro run
  obtain ⟨k, -, hafter, hok⟩ := items?_run_prune (m := m) hcalm hitems before
  have hitem := items.item?_applyAll_delete (((Call.prune before).removals items).take k)
  generalize items.applyAll ((((Call.prune before).removals items).take k).map .delete) = items' at *
  refine ⟨(Call.prune before).removals items, k, items', items.pairwise_removals_prune before,
    fun key => Items.mem_removals_prune_iff, hafter, hitem, hok, fun hentries => ?_⟩
  have hdirs (key : Key) (item : Item) (hkey : items.item? key = some item)
      (hdir : item.isDir = true) : items'.item? key = some item := by
    rw [hitem, if_neg, hkey]
    intro hmem
    have hexpired := Items.mem_removals_prune_iff.1 (List.mem_of_mem_take hmem)
    rw [hexpired.isDir_eq_false hentries hkey] at hdir
    cases hdir
  refine ⟨hdirs, fun htree => htree.of_directories_kept (fun key item hkey => ?_) hdirs⟩
  rw [hitem] at hkey
  split at hkey
  · cases hkey
  · exact hkey

end Store

/-! ## A sample -/

namespace Sample

/-- A path in the directory, beside the file. -/
def freshFile : Path := directory.below ⟨"t", by decide⟩

/-- A directory with two files that were changed at different times. -/
def agedEntries : List Entry :=
  [.directory directory "o", .file file 1 2 3 "o", .file freshFile 1 9 3 "o"]

/-- The items of these entries, and an old one under a key without a path. -/
def agedItems : Items :=
  (Items.storeAll ∅ agedEntries).apply
    (.put ((Item.bare ⟨"old", "x"⟩).setLong Attribute.modTime 1))

theorem exists_entry_of_agedItems (key : Key) (item : Item)
    (hitem : agedItems.item? key = some item) (hpath : ∃ p, key.path? = some p) :
    ∃ e : Entry, e.item? = some item := by
  have hall : ∀ item ∈ agedItems.all, item.key.path?.isSome = true →
      ∃ e ∈ agedEntries, e.item? = some item := by
    decide +kernel
  obtain rfl := Items.key_of_item? hitem
  obtain ⟨e, -, he⟩ := hall item (Items.mem_all.2 hitem) (Option.isSome_iff_exists.2 hpath)
  exact ⟨e, he⟩

/-- The first request is throttled, and the first batch is left out. -/
def pruningHost : Host Service :=
  (hosting agedItems).planned { throttles := 1, leftovers := .ofList [(0, 1)] }

/-- The key of the file that is old. -/
def agedKey : Key := ⟨"/b/d", "f"⟩

/-- Only the old file is removed. -/
theorem prune_exact_aged :
    ((store.prune 5).run Service.backend boundMemory pruningHost).outcome = .ok 1 ∧
      ∃ items', ((store.prune 5).run Service.backend boundMemory pruningHost).host.state.items?
          store.table = some items' ∧
        (∀ key, items'.item? key = if key = agedKey then none else agedItems.item? key) ∧
        ∀ key item, agedItems.item? key = some item → item.isDir = true →
          items'.item? key = some item := by
  have hcalm : pruningHost.state.IsCalm := rfl
  have hok : ((store.prune 5).run Service.backend boundMemory pruningHost).outcome = .ok 1 := by
    decide +kernel
  have hpath : agedKey.path? = some file := by
    decide +kernel
  have htime : ((agedItems.item? agedKey).bind (·.get? Attribute.modTime)) = some (.long 2) := by
    decide +kernel
  obtain ⟨item, haged, ht⟩ := Option.bind_eq_some_iff.1 htime
  obtain ⟨expired, k, items', -, hexpired, hafter, hitem, hcount, hrest⟩ :=
    Store.prune_exact (m := boundMemory) hcalm (sees_hosting agedItems).items?_eq 5
  obtain ⟨rfl, hlength⟩ := hcount 1 hok
  have hmem : agedKey ∈ expired :=
    (hexpired agedKey).2 ⟨⟨file, hpath⟩, item, 2, haged, ht, by decide⟩
  obtain ⟨key, rfl⟩ := List.length_eq_one_iff.1 hlength.symm
  obtain rfl := List.mem_singleton.1 hmem
  refine ⟨hok, items', hafter, fun key => ?_, (hrest exists_entry_of_agedItems).1⟩
  rw [hitem, List.take_length]
  simp only [List.mem_singleton]

end Sample

end TableTree
