import TableTree.Entry.Item
import TableTree.Proofs.Path.Codec
import TableTree.Service.State

/-!
# Live paths

A path is live in the items of a table when its item is there and is no tombstone, and then it is a
file or a directory. Entries that are stored one after the other change the kinds of their paths and
no others.

Results:

* `Items.at?`, `Items.kind?`: the item of a path, and the kind of a live path.
* `Items.IsTree`: every live path has live directories above it.
* `Items.at?_store`, `Items.kind?_store`: what storing an entry changes.
* `Items.storeAll_storeAll`: entries leave no trace under later entries of the same paths.
* `Items.kind?_delete`: what removing an item changes.
* `Items.applyAll_writes`: writing the items of entries stores the entries.
-/

namespace TableTree

/-- What a live path is. -/
inductive Kind
  | file
  | directory
deriving DecidableEq

/-- What an entry is, live or not. -/
def Entry.kind (e : Entry) : Kind := if e.isDir then .directory else .file

/-- What a live entry is; a tombstone is nothing. -/
def Entry.liveKind? (e : Entry) : Option Kind := if e.isLive then some e.kind else none

/-- Whether an item is marked as a directory. -/
def Item.isDir (item : Item) : Bool := (item.bool? Attribute.isDir).getD false

/-- What a live item is; a tombstone is nothing. -/
def Item.liveKind? (item : Item) : Option Kind :=
  if item.isLive then some (if item.isDir then .directory else .file) else none

namespace Entry

theorem isLive_of_liveKind? {e : Entry} {k : Kind} (h : e.liveKind? = some k) :
    e.isLive = true ∧ e.kind = k := by
  unfold liveKind? at h
  split at h
  · rename_i hl
    exact ⟨hl, Option.some.inj h⟩
  · cases h

@[simp] theorem liveKind?_tombstone (p : Path) (now : Int64) :
    (tombstone p now).liveKind? = none := rfl

@[simp] theorem isLive_tombstone (p : Path) (now : Int64) : (tombstone p now).isLive = false := rfl

@[simp] theorem path_tombstone (p : Path) (now : Int64) : (tombstone p now).path = p := rfl

/-! ## The item of an entry -/

theorem isLive_itemAt (e : Entry) (key : Key) : (e.itemAt key).isLive = e.isLive := by
  unfold itemAt Item.isLive Entry.isLive
  simp [Item.bool?, Item.setBool, Item.get?_set]

theorem isDir_itemAt (e : Entry) (key : Key) : (e.itemAt key).isDir = e.isDir := by
  unfold itemAt Item.isDir
  cases h : e.isDir <;>
    simp [Item.bool?, Item.setBool, Item.setLong, Item.get?_set, Attribute.isDir,
      Attribute.isDeleted, Attribute.length, Attribute.modTime, Attribute.blockSize]

/-- The item of an entry is of the kind of the entry. -/
theorem liveKind?_itemAt (e : Entry) (key : Key) : (e.itemAt key).liveKind? = e.liveKind? := by
  rw [Item.liveKind?, isLive_itemAt, isDir_itemAt]
  rfl

theorem item?_of_key? {e : Entry} {key : Key} (h : e.path.key? = some key) :
    e.item? = some (e.itemAt key) := by
  rw [item?, h]
  rfl

/-- An entry whose path has a key has its item. -/
theorem item_of_key? {e : Entry} {key : Key} (h : e.path.key? = some key) :
    e.item = .ok (e.itemAt key) := by
  rw [item, Path.key_of_key? h]
  rfl

/-- The item of an entry has the key of the path of the entry. -/
theorem key?_of_item? {e : Entry} {item : Item} (h : e.item? = some item) :
    e.path.key? = some item.key := by
  obtain ⟨key, hkey, rfl⟩ := Option.map_eq_some_iff.1 h
  rw [hkey, e.key_itemAt]

/-- What is read back from an item is what the item says. -/
theorem liveKind?_of_ofItem? {item : Item} {owner : String} {e : Entry}
    (h : ofItem? item owner = some e) : item.key.path? = some e.path ∧
      e.liveKind? = item.liveKind? ∧ e.isDir = item.isDir := by
  unfold ofItem? at h
  obtain ⟨path, hp, rfl⟩ := Option.map_eq_some_iff.1 h
  unfold liveKind? Item.liveKind? isLive Item.isLive Entry.kind Item.isDir
  cases (item.bool? Attribute.isDir).getD false <;> exact ⟨hp, rfl, rfl⟩

end Entry

namespace Items

/-! ## The item of a path -/

/-- The item of a path; a root has none. -/
def at? (items : Items) (p : Path) : Option Item := p.key?.bind items.item?

/-- What a path is, if it is live. -/
def kind? (items : Items) (p : Path) : Option Kind := (items.at? p).bind Item.liveKind?

/-- Whether a path is live. -/
def IsLive (items : Items) (p : Path) : Prop := items.kind? p ≠ none

instance (items : Items) (p : Path) : Decidable (items.IsLive p) :=
  inferInstanceAs (Decidable (_ ≠ _))

theorem at?_of_isRoot (items : Items) {p : Path} (h : p.isRoot = true) : items.at? p = none := by
  rw [at?, Path.key?_eq_none_iff.2 h]
  rfl

theorem at?_of_key? (items : Items) {p : Path} {key : Key} (h : p.key? = some key) :
    items.at? p = items.item? key := by
  rw [at?, h]
  rfl

/-- A path keeps its item if its key does. -/
theorem at?_congr {items items' : Items} {p : Path}
    (h : ∀ key, p.key? = some key → items'.item? key = items.item? key) :
    items'.at? p = items.at? p := by
  cases hp : p.key? with
  | none =>
    have hr := Path.key?_eq_none_iff.1 hp
    rw [at?_of_isRoot _ hr, at?_of_isRoot _ hr]
  | some key =>
    rw [at?_of_key? _ hp, at?_of_key? _ hp]
    exact h key hp

/-- The item of a path has the key of the path. -/
theorem key?_of_at? {items : Items} {p : Path} {item : Item} (h : items.at? p = some item) :
    p.key? = some item.key ∧ items.item? item.key = some item := by
  obtain ⟨key, hkey, hitem⟩ := Option.bind_eq_some_iff.1 h
  obtain ⟨attributes, -, rfl⟩ := Option.map_eq_some_iff.1 hitem
  exact ⟨hkey, hitem⟩

theorem IsLive.isRoot {items : Items} {p : Path} (h : items.IsLive p) : p.isRoot = false := by
  cases hr : p.isRoot with
  | false => rfl
  | true =>
    refine absurd ?_ h
    rw [kind?, at?_of_isRoot items hr]
    rfl

theorem isLive_of_kind? {items : Items} {p : Path} {k : Kind} (h : items.kind? p = some k) :
    items.IsLive p := by
  rw [IsLive, h]
  exact Option.some_ne_none k

theorem kind?_of_isLive {items : Items} {p : Path} (h : items.IsLive p) :
    ∃ k, items.kind? p = some k :=
  Option.ne_none_iff_exists'.1 h

theorem isLive_iff_any {items : Items} {p : Path} :
    items.IsLive p ↔ (items.at? p).any Item.isLive = true := by
  unfold IsLive kind?
  cases items.at? p with
  | none => simp
  | some item => simp [Item.liveKind?]

/-- Whether every live path has live directories above it. -/
def IsTree (items : Items) : Prop :=
  ∀ p, items.IsLive p → ∀ q ∈ p.ancestors, items.kind? q = some .directory

/-- In a tree, nothing live lies below a live file. -/
theorem IsTree.eq_of_file {items : Items} (h : items.IsTree) {p q : Path}
    (hp : items.kind? p = some .file) (hq : items.IsLive q) (hu : q.isUnder p = true) : q = p := by
  by_cases hne : q = p
  · exact hne
  · have hmem := Path.mem_ancestors_of_isUnder hu hne (isLive_of_kind? hp).isRoot
    cases hp.symm.trans (h q hq p hmem)

/-! ## Storing entries -/

/-- The items after an entry is stored; an entry at a root is not. -/
def store (items : Items) (e : Entry) : Items :=
  e.item?.elim items fun item => items.apply (.put item)

/-- The items after entries are stored, one after the other. -/
def storeAll (items : Items) (es : List Entry) : Items := es.foldl store items

@[simp] theorem storeAll_nil (items : Items) : items.storeAll [] = items := rfl

@[simp] theorem storeAll_cons (items : Items) (e : Entry) (es : List Entry) :
    items.storeAll (e :: es) = (items.store e).storeAll es := rfl

theorem storeAll_append (items : Items) (es es' : List Entry) :
    items.storeAll (es ++ es') = (items.storeAll es).storeAll es' :=
  List.foldl_append ..

/-- Storing an entry replaces the item of its key. -/
theorem item?_store (items : Items) (e : Entry) (key : Key) :
    (items.store e).item? key = if e.path.key? = some key then e.item? else items.item? key := by
  cases hk : e.path.key? with
  | none => simp [store, Entry.item?, hk]
  | some k =>
    rw [store, Entry.item?_of_key? hk, Option.elim_some, item?_apply]
    simp [Write.key]

/-- Storing an entry replaces the item of its path. -/
theorem at?_store (items : Items) (e : Entry) (p : Path) :
    (items.store e).at? p = if e.path = p then e.item? else items.at? p := by
  by_cases h : e.path = p
  · subst h
    rw [if_pos rfl]
    cases hp : e.path.key? with
    | none =>
      have hr := Path.key?_eq_none_iff.1 hp
      rw [at?_of_isRoot _ hr, Entry.item?_eq_none_iff.2 hr]
    | some key => rw [at?_of_key? _ hp, item?_store, if_pos hp]
  · rw [if_neg h]
    apply at?_congr
    intro key hp
    have hk : e.path.key? ≠ some key := fun hk => h (Path.key?_injective hk hp)
    rw [item?_store, if_neg hk]

/-- Storing an entry changes what its path is. -/
theorem kind?_store (items : Items) (e : Entry) (p : Path) :
    (items.store e).kind? p =
      if e.path = p ∧ p.isRoot = false then e.liveKind? else items.kind? p := by
  rw [kind?, at?_store]
  by_cases h : e.path = p
  · subst h
    cases hr : e.path.isRoot with
    | true =>
      rw [if_pos rfl, if_neg (by simp), Entry.item?_eq_none_iff.2 hr, kind?, at?_of_isRoot _ hr]
    | false =>
      obtain ⟨key, hk⟩ := Path.exists_key?_of_isRoot hr
      rw [if_pos rfl, if_pos ⟨rfl, rfl⟩, Entry.item?_of_key? hk]
      exact e.liveKind?_itemAt key
  · rw [if_neg h, if_neg fun hp => h hp.1]
    rfl

/-- Items are told apart by the items of their keys. -/
theorem ext_item? {items items' : Items} (h : ∀ key, items'.item? key = items.item? key) :
    items' = items := by
  refine Std.ExtTreeMap.ext_getElem? ?_
  intro key
  refine (Option.map_inj_right fun x y hxy => ?_).1 (h key)
  exact congrArg Item.attributes hxy

/-- The later of two entries of a path counts. -/
theorem store_store {items : Items} {d e : Entry} (h : d.path = e.path) :
    (items.store d).store e = items.store e := by
  refine ext_item? ?_
  intro key
  rw [item?_store, item?_store, item?_store, h]
  split <;> rfl

/-- Entries of different paths may be stored in any order. -/
theorem store_comm {items : Items} {d e : Entry} (h : d.path ≠ e.path) :
    (items.store d).store e = (items.store e).store d := by
  refine ext_item? ?_
  intro key
  simp only [item?_store]
  by_cases hd : d.path.key? = some key
  · rw [if_pos hd, if_pos hd, if_neg fun he => h (Path.key?_injective hd he)]
  · rw [if_neg hd, if_neg hd]

/-- An entry may be stored before entries of other paths. -/
theorem storeAll_store {items : Items} {es : List Entry} {e : Entry}
    (h : ∀ d ∈ es, d.path ≠ e.path) :
    (items.storeAll es).store e = (items.store e).storeAll es := by
  induction es generalizing items with
  | nil => rfl
  | cons d es ih =>
    rw [storeAll_cons, ih fun x hx => h x (List.mem_cons_of_mem d hx),
      store_comm (h d List.mem_cons_self), storeAll_cons]

/-- A key that no entry has keeps its item. -/
theorem item?_storeAll_of_not_mem {items : Items} {es : List Entry} {key : Key}
    (h : ∀ e ∈ es, e.path.key? ≠ some key) : (items.storeAll es).item? key = items.item? key := by
  induction es generalizing items with
  | nil => rfl
  | cons e es ih =>
    rw [storeAll_cons, ih fun d hd => h d (List.mem_cons_of_mem e hd), item?_store,
      if_neg (h e List.mem_cons_self)]

/-- A path that no entry has keeps its item. -/
theorem at?_storeAll_of_not_mem {items : Items} {es : List Entry} {p : Path}
    (h : ∀ e ∈ es, e.path ≠ p) : (items.storeAll es).at? p = items.at? p := by
  apply at?_congr
  intro key hp
  apply item?_storeAll_of_not_mem
  intro e he hk
  exact h e he (Path.key?_injective hk hp)

/-- A path that no entry has stays live or dead. -/
theorem isLive_storeAll_of_not_mem {items : Items} {es : List Entry} {p : Path}
    (h : ∀ e ∈ es, e.path ≠ p) :
    (items.storeAll es).IsLive p ↔ items.IsLive p := by
  rw [isLive_iff_any, isLive_iff_any, at?_storeAll_of_not_mem h]

/-- The item of a key that an entry of a list has is the same wherever the list is stored. -/
theorem item?_storeAll_of_mem {es : List Entry} {key : Key}
    (h : ∃ e ∈ es, e.path.key? = some key) (items items' : Items) :
    (items.storeAll es).item? key = (items'.storeAll es).item? key := by
  induction es generalizing items items' with
  | nil => simp at h
  | cons e es ih =>
    rw [storeAll_cons, storeAll_cons]
    by_cases hrest : ∃ d ∈ es, d.path.key? = some key
    · exact ih hrest _ _
    · have hlast : ∀ d ∈ es, d.path.key? ≠ some key := fun d hd hk => hrest ⟨d, hd, hk⟩
      obtain ⟨d, hd, hk⟩ := h
      have he : e.path.key? = some key := by
        rcases List.mem_cons.1 hd with rfl | hd
        · exact hk
        · exact absurd hk (hlast d hd)
      rw [item?_storeAll_of_not_mem hlast, item?_storeAll_of_not_mem hlast, item?_store,
        item?_store, if_pos he, if_pos he]

/-- Entries leave no trace under later entries of the same paths. -/
theorem storeAll_storeAll {items : Items} {ds es : List Entry}
    (h : ∀ d ∈ ds, ∃ e ∈ es, e.path = d.path) :
    (items.storeAll ds).storeAll es = items.storeAll es := by
  refine ext_item? ?_
  intro key
  by_cases hmem : ∃ e ∈ es, e.path.key? = some key
  · exact item?_storeAll_of_mem hmem _ _
  · have hnot : ∀ e ∈ es, e.path.key? ≠ some key := fun e he hk => hmem ⟨e, he, hk⟩
    rw [item?_storeAll_of_not_mem hnot, item?_storeAll_of_not_mem hnot]
    refine item?_storeAll_of_not_mem ?_
    intro d hd
    obtain ⟨e, he, hp⟩ := h d hd
    exact hp ▸ hnot e he

/-- Storing some entries of a list from the front, and then the list again without some of those,
comes to storing the list. -/
theorem storeAll_take_storeAll_drop {items : Items} {es : List Entry} {j k : Nat} (hjk : j ≤ k) :
    (items.storeAll (es.take k)).storeAll (es.drop j) = items.storeAll es := by
  have htake : es.take k = es.take j ++ (es.drop j).take (k - j) := by
    rw [← List.take_add, Nat.add_sub_cancel' hjk]
  rw [htake, storeAll_append, storeAll_storeAll fun d hd => ⟨d, List.mem_of_mem_take hd, rfl⟩,
    ← storeAll_append, List.take_append_drop]

/-! ## Removing items -/

theorem at?_delete (items : Items) (key : Key) (p : Path) :
    (items.apply (.delete key)).at? p = if p.key? = some key then none else items.at? p := by
  cases hp : p.key? with
  | none => simp [at?, hp]
  | some k =>
    rw [at?_of_key? _ hp, at?_of_key? _ hp, item?_apply]
    by_cases h : key = k
    · simp [Write.key, h]
    · simp [Write.key, h, Ne.symm h]

/-- Removing an item leaves its path dead and the other paths as they are. -/
theorem kind?_delete (items : Items) (key : Key) (p : Path) :
    (items.apply (.delete key)).kind? p = if p.key? = some key then none else items.kind? p := by
  rw [kind?, at?_delete]
  split <;> rfl

end Items

/-! ## Writing the items of entries -/

/-- The writes that store entries. -/
def Entry.writes (es : List Entry) : List Write := (es.filterMap Entry.item?).map .put

@[simp] theorem Entry.writes_nil : Entry.writes [] = [] := rfl

/-- Entries of which none is at a root have one write each. -/
theorem Entry.take_drop_writes {es : List Entry} (h : ∀ e ∈ es, e.path.isRoot = false) (k : Nat) :
    (Entry.writes es).take k = Entry.writes (es.take k) ∧
      (Entry.writes es).drop k = Entry.writes (es.drop k) := by
  induction es generalizing k with
  | nil => simp
  | cons e es ih =>
    obtain ⟨key, hkey⟩ := Path.exists_key?_of_isRoot (h e List.mem_cons_self)
    have hwrites (ds : List Entry) :
        Entry.writes (e :: ds) = .put (e.itemAt key) :: Entry.writes ds := by
      simp [writes, item?_of_key? hkey]
    cases k with
    | zero => simp
    | succ k =>
      obtain ⟨htake, hdrop⟩ := ih (fun d hd => h d (List.mem_cons_of_mem e hd)) k
      rw [hwrites, List.take_succ_cons, List.take_succ_cons, List.drop_succ_cons,
        List.drop_succ_cons, hwrites, htake]
      exact ⟨rfl, hdrop⟩

/-- What is done of a batch at the front of their writes stores some of the entries, and what is
left of the batch, with the other writes, stores the rest. -/
theorem Entry.exists_take_drop_batch {es : List Entry} (h : ∀ e ∈ es, e.path.isRoot = false)
    {batch rest : List Write} (heq : batch ++ rest = Entry.writes es) (k : Nat) :
    ∃ j, batch.take k = Entry.writes (es.take j) ∧
      batch.drop k ++ rest = Entry.writes (es.drop j) := by
  obtain ⟨htake, hdrop⟩ := take_drop_writes h (min k batch.length)
  have hle : min k batch.length ≤ batch.length := Nat.min_le_right ..
  rw [← heq, List.take_append_of_le_length hle, ← List.take_eq_take_min] at htake
  rw [← heq, List.drop_append_of_le_length hle] at hdrop
  refine ⟨_, htake, ?_⟩
  rw [← hdrop]
  congr 1
  rw [List.drop_eq_drop_iff]
  omega

namespace Items

theorem applyAll_writes (items : Items) (es : List Entry) :
    items.applyAll (Entry.writes es) = items.storeAll es := by
  induction es generalizing items with
  | nil => rfl
  | cons e es ih =>
    rw [storeAll_cons, ← ih]
    unfold Entry.writes store
    cases h : e.item? <;> simp [h]

/-- Some of the writes from the front store some of the entries from the front. -/
theorem exists_applyAll_take_writes (items : Items) (es : List Entry) (k : Nat) :
    ∃ j, items.applyAll ((Entry.writes es).take k) = items.storeAll (es.take j) := by
  suffices h : ∃ j, (Entry.writes es).take k = Entry.writes (es.take j) by
    obtain ⟨j, hj⟩ := h
    exact ⟨j, by rw [hj, applyAll_writes]⟩
  induction es generalizing k with
  | nil => exact ⟨0, by simp [Entry.writes]⟩
  | cons e es ih =>
    cases he : e.item? with
    | none =>
      obtain ⟨j, hj⟩ := ih k
      exact ⟨j + 1, by simpa [Entry.writes, he] using hj⟩
    | some item =>
      cases k with
      | zero => exact ⟨0, by simp [Entry.writes]⟩
      | succ k =>
        obtain ⟨j, hj⟩ := ih k
        exact ⟨j + 1, by simpa [Entry.writes, he] using hj⟩

end Items

end TableTree
