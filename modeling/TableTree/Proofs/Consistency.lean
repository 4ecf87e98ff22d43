import TableTree.Proofs.Creation
import TableTree.Proofs.Runs

/-!
# Consistency of the tree

If the calls on a store agree on which paths are directories and which are files, the tree is
consistent after every one of them, whatever has gone wrong on the way: live paths have live
directories above them, and nothing live lies below a live file.

Results:

* `Call.Suits`: a call that agrees with an assignment of kinds to paths.
* `Items.Suits`: items that agree with it; `Items.Suits.isTree` says that they form a tree.
* `Call.suits_applyAll_take`: whatever part of its writes such a call does, the items still agree.
* `Stage.isTree_run`: the tree is consistent along every run of such calls.
-/

namespace TableTree

variable {kind : Path → Kind}

/-! ## Agreement with kinds -/

/-- Whether an assignment of kinds allows something at a path: only directories lie above it. -/
def Path.Allowed (kind : Path → Kind) (p : Path) : Prop := ∀ q ∈ p.ancestors, kind q = .directory

/-- A live entry of the kind of its path, below directories only. -/
structure Entry.Suits (kind : Path → Kind) (e : Entry) : Prop where
  isLive : e.isLive = true
  kind_eq : e.kind = kind e.path
  allowed : e.path.Allowed kind

/-- Whether a call agrees with an assignment of kinds: it creates entries of the kinds of their
paths, below directories only, and removes single paths only where these are files. -/
def Call.Suits (kind : Path → Kind) : Call → Prop
  | .put e => e.Suits kind
  | .putAll es => ∀ e ∈ es, e.Suits kind
  | .putListing l => kind l.path = .directory ∧ l.path.Allowed kind ∧
    ∀ e ∈ l.entries, e.path.parent? = some l.path ∧ e.Suits kind
  | .move deletes creates =>
    (∀ p ∈ deletes.getD [], kind p = .file) ∧ ∀ e ∈ creates.getD [], e.Suits kind
  | .delete path => kind path = .file
  | .forget path => kind path = .file
  | .deleteSubtree _ => True
  | .prune _ => True

namespace Entry

theorem Suits.standIn {e : Entry} (h : e.Suits kind) {q : Path} (hq : q ∈ e.path.ancestors)
    (owner : String) : (standIn q owner).Suits kind where
  isLive := rfl
  kind_eq := (h.allowed q hq).symm
  allowed r hr := h.allowed r (Path.ancestors_trans hq hr)

theorem suits_of_mem_withMissing {items : Items} {owner : String} {e d : Entry}
    (he : e.Suits kind) (h : d ∈ items.withMissing owner e) : d.Suits kind := by
  rcases (Items.of_mem_withMissing h).2 with rfl | ⟨hm, hd⟩
  · exact he
  · rw [hd]
    exact he.standIn (Items.of_mem_lacking hm).1 owner

theorem suits_of_mem_withAncestors {owner : String} {es : List Entry} {d : Entry}
    (hes : ∀ e ∈ es, e.Suits kind) (h : d ∈ withAncestors es owner) : d.Suits kind := by
  rcases (of_mem_withAncestors h).2 with hd | ⟨hd, e, he, hm⟩
  · exact hes d hd
  · rw [hd]
    exact (hes e he).standIn hm owner

end Entry

/-- A directory has no time. -/
theorem Entry.long?_modTime_itemAt {e : Entry} (h : e.isDir = true) (key : Key) :
    (e.itemAt key).long? Attribute.modTime = none := by
  unfold itemAt
  simp [h, Item.long?, Item.setBool, Item.get?_set, Attribute.isDir, Attribute.isDeleted,
    Attribute.modTime]

namespace Items

variable {items items' : Items}

/-- Items that agree with an assignment of kinds, where directories have no time. -/
structure Suits (kind : Path → Kind) (items : Items) : Prop where
  upClosed : UpClosed items.IsLive
  kinds : ∀ p k, items.kind? p = some k → k = kind p ∧ p.Allowed kind
  untimed : ∀ p item, items.at? p = some item → item.isDir = true →
    item.long? Attribute.modTime = none

/-- Items that agree with an assignment of kinds form a tree. -/
theorem Suits.isTree (h : items.Suits kind) : items.IsTree := by
  intro p hp q hq
  obtain ⟨k, hk⟩ := kind?_of_isLive hp
  obtain ⟨k', hk'⟩ := kind?_of_isLive (h.upClosed p hp q hq)
  rw [hk', (h.kinds q k' hk').1, (h.kinds p k hk).2 q hq]

theorem suits_madeItems (createdAt : Int64) : (Settings.madeItems createdAt).Suits kind where
  upClosed p hp := absurd hp (not_isLive_madeItems createdAt p)
  kinds p k hk := absurd (isLive_of_kind? hk) (not_isLive_madeItems createdAt p)
  untimed p item h := by
    rw [at?_madeItems] at h
    cases h

/-- No live path lies below a path that is assigned to be a file. -/
theorem Suits.not_mem_ancestors (h : items.Suits kind) {p q : Path} (hp : items.IsLive p)
    (hq : kind q = .file) : q ∉ p.ancestors := by
  intro hm
  obtain ⟨k, hk⟩ := kind?_of_isLive hp
  cases hq.symm.trans ((h.kinds p k hk).2 q hm)

/-! ## Storing and removing -/

/-- Storing a live entry after its ancestors, or a tombstone at a file, keeps the agreement. -/
theorem Suits.store (h : items.Suits kind) {e : Entry} (hr : e.path.isRoot = false)
    (hlive : e.isLive = true → e.Suits kind ∧ ∀ q ∈ e.path.ancestors, items.IsLive q)
    (hdead : e.isLive = false → kind e.path = .file) : (items.store e).Suits kind where
  upClosed := by
    intro p hp q hq
    rw [isLive_store hr] at hp ⊢
    cases hl : e.isLive with
    | true =>
      rw [Entry.mark_of_isLive hl] at hp ⊢
      rcases hp with rfl | hp
      · exact .inr ((hlive hl).2 q hq)
      · exact .inr (h.upClosed p hp q hq)
    | false =>
      unfold Entry.mark at hp ⊢
      split at hp
      · simp [hl] at hp
      · rw [if_neg]
        · exact h.upClosed p hp q hq
        · rintro rfl
          exact h.not_mem_ancestors hp (hdead hl) hq
  kinds := by
    intro p k hk
    rw [kind?_store] at hk
    split at hk
    · rename_i hp
      obtain ⟨hl, rfl⟩ := Entry.isLive_of_liveKind? hk
      rw [← hp.1]
      exact ⟨(hlive hl).1.kind_eq, (hlive hl).1.allowed⟩
    · exact h.kinds p k hk
  untimed := by
    intro p item hat hdir
    rw [at?_store] at hat
    split at hat
    · obtain ⟨key, -, rfl⟩ := Option.map_eq_some_iff.1 hat
      rw [Entry.isDir_itemAt] at hdir
      exact Entry.long?_modTime_itemAt hdir key
    · exact h.untimed p item hat hdir

/-- Storing live entries after their ancestors, and tombstones at files, keeps the agreement. -/
theorem Suits.storeAll (h : items.Suits kind) {es : List Entry}
    (hr : ∀ e ∈ es, e.path.isRoot = false) (hlive : ∀ e ∈ es, e.isLive = true → e.Suits kind)
    (hdead : ∀ e ∈ es, e.isLive = false → kind e.path = .file)
    (hfirst : AncestorsFirst items.IsLive es) : (items.storeAll es).Suits kind := by
  induction es generalizing items with
  | nil => exact h
  | cons e es ih =>
    have hre := hr e List.mem_cons_self
    have hlive' := fun hl => hlive e List.mem_cons_self hl
    have hstore := h.store hre (fun hl => ⟨hlive' hl, hfirst.1 hl⟩) (hdead e List.mem_cons_self)
    apply ih hstore
    · exact fun d hd => hr d (List.mem_cons_of_mem e hd)
    · exact fun d hd => hlive d (List.mem_cons_of_mem e hd)
    · exact fun d hd => hdead d (List.mem_cons_of_mem e hd)
    · rw [isLive_store hre]
      exact hfirst.2

/-- Removing an item that is dead or a file keeps the agreement. -/
theorem Suits.delete (h : items.Suits kind) {key : Key}
    (hkey : ∀ p, p.key? = some key → items.IsLive p → kind p = .file) :
    (items.apply (.delete key)).Suits kind := by
  have hlive {p : Path} (hp : (items.apply (.delete key)).IsLive p) :
      p.key? ≠ some key ∧ items.IsLive p := by
    unfold IsLive at hp
    rw [kind?_delete] at hp
    split at hp
    · exact absurd rfl hp
    · exact ⟨‹_›, hp⟩
  refine ⟨?_, ?_, ?_⟩
  · intro p hp q hq
    have hq' := h.upClosed p (hlive hp).2 q hq
    have hqk : q.key? ≠ some key := by
      intro hqk
      exact h.not_mem_ancestors (hlive hp).2 (hkey q hqk hq') hq
    unfold IsLive
    rw [kind?_delete, if_neg hqk]
    exact hq'
  · intro p k hk
    rw [kind?_delete] at hk
    split at hk
    · cases hk
    · exact h.kinds p k hk
  · intro p item hat hdir
    rw [at?_delete] at hat
    split at hat
    · cases hat
    · exact h.untimed p item hat hdir

/-- Removing items that are dead or files keeps the agreement. -/
theorem Suits.deleteAll (h : items.Suits kind) {keys : List Key}
    (hkeys : ∀ key ∈ keys, ∀ p, p.key? = some key → items.IsLive p → kind p = .file) :
    (items.applyAll (keys.map .delete)).Suits kind := by
  induction keys generalizing items with
  | nil => exact h
  | cons key keys ih =>
    refine ih (h.delete (hkeys key List.mem_cons_self)) ?_
    intro key' hk p hp hl
    refine hkeys key' (List.mem_cons_of_mem key hk) p hp ?_
    unfold IsLive at hl ⊢
    rw [kind?_delete] at hl
    split at hl
    · exact absurd rfl hl
    · exact hl

/-- Burying paths with all that is live below them keeps the agreement. -/
theorem Suits.of_buried (h : items.Suits kind) {doomed : Path → Prop} {now : Int64}
    (hb : items.Buried items' doomed now)
    (hdown : ∀ p, items.IsLive p → ∀ q ∈ p.ancestors, doomed q → doomed p) :
    items'.Suits kind := by
  refine ⟨?_, ?_, ?_⟩
  · intro p hp q hq
    obtain ⟨hlive, hp⟩ := hb.isLive_iff.1 hp
    have hqd : ¬ doomed q := fun hqd => hp (hdown p hlive q hq hqd)
    exact hb.isLive_iff.2 ⟨h.upClosed p hlive q hq, hqd⟩
  · intro p k hk
    have hp := (hb.isLive_iff.1 (isLive_of_kind? hk)).2
    rw [hb.kind?_other hp] at hk
    exact h.kinds p k hk
  · intro p item hat hdir
    by_cases hp : doomed p
    · rw [hb.tombstone p hp] at hat
      obtain ⟨key, -, rfl⟩ := Option.map_eq_some_iff.1 hat
      rw [Entry.isDir_itemAt] at hdir
      cases hdir
    · rw [hb.at?_other hp] at hat
      exact h.untimed p item hat hdir

/-- An item that a pruning removes is dead or a file. -/
theorem Suits.kind_of_mem_expired (h : items.Suits kind) {before : Int64} {key : Key}
    (hkey : key ∈ (Items.select items.all (some (.expired before))).map Item.key) {p : Path}
    (hp : p.key? = some key) (hl : items.IsLive p) : kind p = .file := by
  obtain ⟨item, hitem, rfl⟩ := List.mem_map.1 hkey
  obtain ⟨hall, haccepts⟩ := List.mem_filter.1 hitem
  have hat : items.at? p = some item := by
    rw [at?_of_key? items hp]
    exact mem_all.1 hall
  have htime : item.long? Attribute.modTime ≠ none := by
    intro hnone
    simp [Filter.expired, Filter.accepts, hnone] at haccepts
  obtain ⟨k, hk⟩ := kind?_of_isLive hl
  rw [← (h.kinds p k hk).1]
  rw [kind?, hat, Option.bind_some, Item.liveKind?] at hk
  have hdir : item.isDir ≠ true := fun hdir => htime (h.untimed p item hat hdir)
  rw [if_neg hdir] at hk
  split at hk
  · exact (Option.some.inj hk).symm
  · cases hk

end Items

/-! ## Calls -/

namespace Call

variable {owner : String} {items : Items} {now : Int64} {c : Call}

/-- What a call other than a deletion of a subtree stores suits the kinds, or is a tombstone at a
file. -/
theorem suits_of_mem_entries (hc : c.Suits kind) (hd : ∀ path, c ≠ .deleteSubtree path) {e : Entry}
    (he : e ∈ c.entries owner items now) :
    (e.isLive = true → e.Suits kind) ∧ (e.isLive = false → kind e.path = .file) := by
  have hsuits (h : e.Suits kind) :
      (e.isLive = true → e.Suits kind) ∧ (e.isLive = false → kind e.path = .file) :=
    ⟨fun _ => h, fun hl => absurd h.isLive (by simp [hl])⟩
  cases c with
  | put d => exact hsuits (Entry.suits_of_mem_withMissing hc he)
  | putAll es => exact hsuits (Entry.suits_of_mem_withAncestors hc he)
  | putListing l =>
    obtain ⟨hkind, hallowed, hl⟩ := hc
    refine hsuits ?_
    rcases List.mem_append.1 (Entry.mem_of_mem_keepLast he) with he | he
    · exact Entry.suits_of_mem_withMissing (e := l.directory owner) ⟨rfl, hkind.symm, hallowed⟩ he
    · exact (hl e (List.mem_filter.1 he).1).2
  | move deletes creates =>
    rcases List.mem_append.1 (Entry.mem_of_mem_keepLast he) with he | he
    · exact hsuits (Entry.suits_of_mem_withAncestors hc.2 he)
    · obtain ⟨p, hp, rfl⟩ := List.mem_map.1 he
      exact ⟨fun hl => absurd hl (by simp), fun _ => hc.1 p (List.mem_filter.1 hp).1⟩
  | delete path =>
    simp only [entries] at he
    split at he
    · simp at he
    · rw [List.mem_singleton.1 he]
      exact ⟨fun hl => absurd hl (by simp), fun _ => hc⟩
  | deleteSubtree path => exact absurd rfl (hd path)
  | forget path => simp [entries] at he
  | prune before => simp [entries] at he

/-- What a call other than a deletion of a subtree stores comes after its ancestors. -/
theorem ancestorsFirst_of_suits (hc : c.Suits kind) (hd : ∀ path, c ≠ .deleteSubtree path)
    (h : items.Suits kind) : AncestorsFirst items.IsLive (c.entries owner items now) := by
  cases c with
  | put e => exact ancestorsFirst_put h.upClosed e
  | putAll es => exact ancestorsFirst_putAll fun e he => (hc e he).isLive
  | putListing l =>
    exact ancestorsFirst_putListing h.upClosed fun e he => ⟨(hc.2.2 e he).2.isLive, (hc.2.2 e he).1⟩
  | move deletes creates =>
    have hcreated : ∀ e ∈ Entry.withAncestors (creates.getD []) owner, e.Suits kind := fun _ =>
      Entry.suits_of_mem_withAncestors hc.2
    have hfirst : AncestorsFirst items.IsLive (Entry.withAncestors (creates.getD []) owner) :=
      Entry.ancestorsFirst_withAncestors fun e he => (hc.2 e he).isLive
    have hkept : AncestorsFirst items.IsLive
        (Entry.keepLast (Entry.withAncestors (creates.getD []) owner)) :=
      ancestorsFirst_keepLast hfirst fun e he => (hcreated e he).isLive
    simp only [entries]
    rw [Entry.keepLast_append]
    -- the tombstones are at files, below which nothing is created
    apply hkept.foldl_putLater_tombstones
    · intro t ht
      obtain ⟨p, -, rfl⟩ := List.mem_map.1 ht
      rfl
    · intro t ht e he _ hm
      obtain ⟨p, hp, rfl⟩ := List.mem_map.1 ht
      have hallowed := (hcreated e (Entry.mem_of_mem_keepLast he)).allowed p hm
      cases (hc.1 p (List.mem_filter.1 hp).1).symm.trans hallowed
  | delete path =>
    simp only [entries]
    split
    · trivial
    · exact ⟨fun hl => absurd hl (by simp), trivial⟩
  | deleteSubtree path => exact absurd rfl (hd path)
  | forget path => trivial
  | prune before => trivial

/-- What a call removes is dead or a file. -/
theorem kind_of_mem_removals (hc : c.Suits kind) (h : items.Suits kind) {key : Key}
    (hkey : key ∈ c.removals items) {p : Path} (hp : p.key? = some key) (hl : items.IsLive p) :
    kind p = .file := by
  cases c with
  | forget path =>
    have hpath : path.key? = some key := by simpa [removals] using hkey
    rw [Path.key?_injective hp hpath]
    exact hc
  | prune before => exact h.kind_of_mem_expired (List.mem_filter.1 hkey).1 hp hl
  | put _ => simp [removals] at hkey
  | putAll _ => simp [removals] at hkey
  | putListing _ => simp [removals] at hkey
  | move _ _ => simp [removals] at hkey
  | delete _ => simp [removals] at hkey
  | deleteSubtree _ => simp [removals] at hkey

/-- A call removes items or stores entries, but not both. -/
theorem removals_eq_nil_or (owner : String) (items : Items) (now : Int64) (c : Call) :
    c.removals items = [] ∨ c.entries owner items now = [] := by
  cases c <;> first | exact .inl rfl | exact .inr rfl

/-- Any number of the tombstones of a deletion of a subtree, from the front, keeps the agreement. -/
theorem suits_storeAll_take_deleteSubtree (h : items.Suits kind) (path : Path) (k : Nat) :
    (items.storeAll (((deleteSubtree path).entries owner items now).take k)).Suits kind := by
  have hvisits : items.size < items.size + 2 := by omega
  obtain ⟨es, hes⟩ := Items.exists_snapshot?_eq owner path hvisits
  have hburied : items.Buried (items.storeAll ((Entry.tombstones es now).take k)) _ now :=
    Items.buried_storeAll fun t ht => (Entry.of_mem_tombstones (List.mem_of_mem_take ht)).1
  simp only [entries, hes, Option.getD_some]
  apply h.of_buried hburied
  intro p hp q hq hqt
  exact Items.doomed_of_mem_take h.isTree hes k hp hq hqt

/-- Any number of the entries of another call, from the front, keeps the agreement. -/
theorem suits_storeAll_take (hc : c.Suits kind) (hd : ∀ path, c ≠ .deleteSubtree path)
    (h : items.Suits kind) (k : Nat) :
    (items.storeAll ((c.entries owner items now).take k)).Suits kind := by
  have hentry := fun e (he : e ∈ (c.entries owner items now).take k) =>
    suits_of_mem_entries hc hd (List.mem_of_mem_take he)
  apply h.storeAll
  · exact fun e he => isRoot_of_mem_entries (List.mem_of_mem_take he)
  · exact fun e he => (hentry e he).1
  · exact fun e he => (hentry e he).2
  · exact (ancestorsFirst_of_suits hc hd h).take k

/-- Any number of the removals of a call, from the front, keeps the agreement. -/
theorem suits_deleteAll_take (hc : c.Suits kind) (h : items.Suits kind) (k : Nat) :
    (items.applyAll (((c.removals items).take k).map .delete)).Suits kind := by
  apply h.deleteAll
  intro key hk p hp hl
  exact kind_of_mem_removals hc h (List.mem_of_mem_take hk) hp hl

/-- Whatever part of its writes a call does that agrees with the kinds, the items agree with them
afterwards if they did before. -/
theorem suits_applyAll_take (hc : c.Suits kind) (h : items.Suits kind) (k : Nat) :
    (items.applyAll ((c.writes owner items now).take k)).Suits kind := by
  rcases removals_eq_nil_or owner items now c with hnil | hnil
  · obtain ⟨j, hj⟩ := items.exists_applyAll_take_writes (c.entries owner items now) k
    rw [writes, hnil, List.map_nil, List.nil_append, hj]
    by_cases hd : ∃ path, c = .deleteSubtree path
    · obtain ⟨path, rfl⟩ := hd
      exact suits_storeAll_take_deleteSubtree h path j
    · exact suits_storeAll_take hc (fun path hp => hd ⟨path, hp⟩) h j
  · rw [writes, hnil, Entry.writes_nil, List.append_nil, List.map_take.symm]
    exact suits_deleteAll_take hc h k

end Call

/-! ## Runs -/

namespace Stage

variable {s : Store} {stage : Stage}

/-- The items agree with the kinds after calls that agree with them. -/
theorem suits_run (hmade : stage.IsMade s) (steps : List Step)
    (hsteps : ∀ x ∈ steps, x.call.Suits kind) :
    ∃ items, (run s stage steps).items? s = some items ∧ items.Suits kind := by
  obtain ⟨createdAt, hmade⟩ := hmade.items?_eq
  exact holds_run hmade (Items.suits_madeItems createdAt)
    fun x hx items h k => Call.suits_applyAll_take (hsteps x hx) h k

/-- **Consistency.** Let calls on a store agree on which paths are directories and which are files.
After each of them, whether it has succeeded or failed, and whatever is throttled, fails or is left
out and whenever the store is closed, every live path has live directories above it, and nothing
live lies below a live file. -/
theorem isTree_run (kind : Path → Kind) {s : Store} {stage : Stage} (hmade : stage.IsMade s)
    (steps : List Step) (hsteps : ∀ x ∈ steps, x.call.Suits kind) :
    ∃ items, (run s stage steps).items? s = some items ∧
      (∀ p, items.IsLive p → ∀ q ∈ p.ancestors, items.kind? q = some .directory) ∧
      ∀ p q, items.kind? p = some .file → items.IsLive q → q.isUnder p = true → q = p := by
  obtain ⟨items, hitems, hsuits⟩ := suits_run hmade steps hsteps
  exact ⟨items, hitems, hsuits.isTree, fun p q hp hq hu => hsuits.isTree.eq_of_file hp hq hu⟩

end Stage

namespace Sample

/-- All paths are directories but one. -/
def kindOf (p : Path) : Kind := if p = file then .file else .directory

theorem suits_putFile : putFile.call.Suits kindOf where
  isLive := rfl
  kind_eq := by decide
  allowed := by
    show ∀ q ∈ file.ancestors, kindOf q = .directory
    rw [ancestors_file]
    decide

/-- A file is stored, and then the deletion of its directory is interrupted. -/
theorem isTree_run_interrupted :
    stage.IsMade store ∧ (∀ x ∈ [putFile, interruptedDelete], x.call.Suits kindOf) ∧
    ∃ items, (Stage.run store stage [putFile, interruptedDelete]).items? store = some items ∧
      (∀ p, items.IsLive p → ∀ q ∈ p.ancestors, items.kind? q = some .directory) ∧
      ∀ p q, items.kind? p = some .file → items.IsLive q → q.isUnder p = true → q = p := by
  have hsteps : ∀ x ∈ [putFile, interruptedDelete], x.call.Suits kindOf := by
    simp only [List.forall_mem_cons]
    exact ⟨suits_putFile, trivial, nofun⟩
  exact ⟨isMade_stage, hsteps, Stage.isTree_run kindOf isMade_stage _ hsteps⟩

end Sample

end TableTree
