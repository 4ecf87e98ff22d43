import TableTree.Proofs.Walk.Traversal

/-!
# The hint about the children of a directory

A directory may be read with a hint whether it has live children. The hint looks for items in the
partition of the path that are marked as not deleted. The listing of the path has the items in the
partition whose keys have a path, and there an item without a mark is live. So hint and listing
agree where each item in the partition has a path and a mark, and need not agree elsewhere.

Results:

* `Items.emptiness_eq_occupied_iff`, `Items.exists_isLive_listed_iff`: what the two go by.
* `Items.emptiness_iff_of_marked`, `Items.emptiness_iff_of_entries`: where they agree.
* `Store.get_with_hint`: reading a path with the hint and without.
* `Sample.hint_differs_from_listing`: neither tells the other.
-/

namespace TableTree

open Operation

/-- An item is live unless it is marked as deleted; it need not be marked as not deleted. -/
theorem Item.isLive_iff {item : Item} :
    item.isLive = true ↔ item.get? Attribute.isDeleted ≠ some (.bool true) := by
  unfold isLive bool?
  rcases item.get? Attribute.isDeleted with _ | (_ | _) | _ <;> simp

/-- What is read back from an item is as live as the item. -/
theorem Entry.isLive_of_ofItem? {item : Item} {owner : String} {e : Entry}
    (h : ofItem? item owner = some e) : e.isLive = item.isLive := by
  obtain ⟨path, -, rfl⟩ := Option.map_eq_some_iff.1 h
  rfl

/-- The item of an entry has a path and a mark. -/
theorem Entry.marked_of_item? {e : Entry} {item : Item} (h : e.item? = some item) :
    (∃ q, item.key.path? = some q) ∧ ∃ b, item.get? Attribute.isDeleted = some (.bool b) := by
  obtain ⟨key, hkey, rfl⟩ := Option.map_eq_some_iff.1 h
  rw [key_itemAt]
  refine ⟨⟨e.path, Path.path?_of_key? hkey⟩, e.isDeleted, ?_⟩
  simp [itemAt, Item.setBool, Item.get?_set]

namespace Items

variable {items : Items} {owner : String} {p : Path}

/-- The hint never says that there are no children. -/
theorem emptiness_ne_empty (p : Path) : items.emptiness p ≠ .empty := by
  unfold emptiness
  split <;> nofun

/-- The hint goes by the items in the partition that are marked as not deleted. -/
theorem emptiness_eq_occupied_iff : items.emptiness p = .occupied ↔ ∃ item ∈ items.all,
    item.key.parent = p.partition ∧ item.get? Attribute.isDeleted = some (.bool false) := by
  have hsome (marked : List Item) :
      (if marked.isEmpty then Emptiness.unknown else .occupied) = .occupied ↔
        ∃ item, item ∈ marked := by
    cases marked <;> simp
  rw [emptiness, hsome]
  simp only [select, List.mem_filter, decide_eq_true_eq, Option.all_some, Filter.live,
    Filter.accepts, and_assoc]

/-- The listing goes by the items in the partition that have a path and no mark as deleted. -/
theorem exists_isLive_listed_iff : (∃ e ∈ items.listed owner p, e.isLive = true) ↔
    ∃ item ∈ items.all, item.key.parent = p.partition ∧ (∃ q, item.key.path? = some q) ∧
      item.get? Attribute.isDeleted ≠ some (.bool true) := by
  constructor
  · rintro ⟨e, he, hlive⟩
    obtain ⟨item, hitem, hof⟩ := List.mem_filterMap.1 he
    obtain ⟨hall, hparent⟩ := List.mem_filter.1 hitem
    rw [Entry.isLive_of_ofItem? hof] at hlive
    exact ⟨item, hall, of_decide_eq_true hparent, ⟨_, (Entry.liveKind?_of_ofItem? hof).1⟩,
      Item.isLive_iff.1 hlive⟩
  · rintro ⟨item, hall, hparent, ⟨q, hpath⟩, hmark⟩
    obtain ⟨e, hof⟩ : ∃ e, Entry.ofItem? item owner = some e := by
      rw [Entry.ofItem?, hpath]
      exact ⟨_, rfl⟩
    have hinside : item ∈ items.all.filter fun item => item.key.parent = p.partition :=
      List.mem_filter.2 ⟨hall, decide_eq_true hparent⟩
    rw [← Item.isLive_iff, ← Entry.isLive_of_ofItem? hof] at hmark
    exact ⟨e, List.mem_filterMap.2 ⟨item, hinside, hof⟩, hmark⟩

/-- Where each item in the partition has a path and a mark, hint and listing agree. -/
theorem emptiness_iff_of_marked (hmarked : ∀ item ∈ items.all, item.key.parent = p.partition →
    (∃ q, item.key.path? = some q) ∧ ∃ b, item.get? Attribute.isDeleted = some (.bool b)) :
    items.emptiness p = .occupied ↔ ∃ e ∈ items.listed owner p, e.isLive = true := by
  rw [emptiness_eq_occupied_iff, exists_isLive_listed_iff]
  constructor
  · rintro ⟨item, hitem, hparent, hmark⟩
    exact ⟨item, hitem, hparent, (hmarked item hitem hparent).1, by simp [hmark]⟩
  · rintro ⟨item, hitem, hparent, -, hmark⟩
    obtain ⟨-, b, hb⟩ := hmarked item hitem hparent
    rw [hb] at hmark
    cases b with
    | false => exact ⟨item, hitem, hparent, hb⟩
    | true => exact absurd rfl hmark

/-- Where each item in the partition is the item of an entry, hint and listing agree. -/
theorem emptiness_iff_of_entries (hentries : ∀ item ∈ items.all,
    item.key.parent = p.partition → ∃ e : Entry, e.item? = some item) :
    items.emptiness p = .occupied ↔ ∃ e ∈ items.listed owner p, e.isLive = true := by
  refine emptiness_iff_of_marked fun item hitem hparent => ?_
  obtain ⟨e, he⟩ := hentries item hitem hparent
  exact Entry.marked_of_item? he

/-- A path of which something is read has a listing. -/
theorem listing?_of_lookup? {e : Entry} (h : items.lookup? owner p = some e) :
    items.listing? owner p = some ⟨p, items.listed owner p, false⟩ := by
  unfold listing?
  rw [h]
  dsimp only
  split <;> rfl

end Items

namespace Store

/-- **Reading a path with a hint.** A bound store reads a path other than a root, while no request
fails and nobody else writes. Asked for the hint about children, it reads the same of the path as
without, except that a directory has the hint. The hint never says that there are no children. It
says that there are some exactly if an item in the partition of the path is marked as not deleted.
The listing of the path has a live entry exactly if an item in the partition has a path and is not
marked as deleted. The two come to the same where each item in the partition has a path and a mark,
as the items of entries do. -/
theorem get_with_hint {s : Store} {items : Items} {m : Memory} {h : Host Service}
    (hs : s.Sees items m h) {p : Path} (hroot : p.isRoot = false) :
    let read (hint : Bool) := ((s.get p hint).run Service.backend m h).outcome
    let inside (item : Item) := item ∈ items.all ∧ item.key.parent = p.partition
    ∃ found, read false = .ok found ∧
      (found.any Entry.isDir = false → read true = .ok found) ∧
      ∀ d, found = some d → d.isDir = true → ∃ emptiness l,
        read true = .ok (some { d with emptiness := emptiness }) ∧
        ((s.listChildren p).run Service.backend m h).outcome = .ok (some l) ∧
        emptiness ≠ .empty ∧
        (emptiness = .occupied ↔
          ∃ item, inside item ∧ item.get? Attribute.isDeleted = some (.bool false)) ∧
        ((∃ e ∈ l.entries, e.isLive = true) ↔ ∃ item, inside item ∧
          (∃ q, item.key.path? = some q) ∧
            item.get? Attribute.isDeleted ≠ some (.bool true)) ∧
        ((∀ item, inside item → (∃ q, item.key.path? = some q) ∧
            ∃ b, item.get? Attribute.isDeleted = some (.bool b)) →
          (emptiness = .occupied ↔ ∃ e ∈ l.entries, e.isLive = true)) := by
  intro read inside
  have hread (hint : Bool) : read hint = .ok (items.read? s.owner hint p) := hs.outcome_get p hint
  have hinside {P : Item → Prop} : (∃ item, inside item ∧ P item) ↔
      ∃ item ∈ items.all, item.key.parent = p.partition ∧ P item := by
    simp only [inside, and_assoc]
  refine ⟨items.lookup? s.owner p, by rw [hread, Items.read?_false], fun hfile => ?_, ?_⟩
  · rw [hread, Items.read?]
    cases he : items.lookup? s.owner p with
    | none => rfl
    | some e =>
      rw [he, Option.any_some] at hfile
      rw [Option.map_some, Items.hinted, hfile]
      simp
  · intro d hd hdir
    obtain rfl := Items.path_of_lookup? hd
    have hlist := hs.outcome_listChildren d.path
    rw [Items.listing?_of_lookup? hd] at hlist
    refine ⟨items.emptiness d.path, _, ?_, hlist, Items.emptiness_ne_empty d.path, ?_, ?_, ?_⟩
    · rw [hread, Items.read?, hd, Option.map_some, Items.hinted, hdir, hroot]
      rfl
    · rw [hinside]
      exact Items.emptiness_eq_occupied_iff
    · rw [hinside]
      exact Items.exists_isLive_listed_iff
    · exact fun hmarked => Items.emptiness_iff_of_marked fun item hitem hparent =>
        hmarked item ⟨hitem, hparent⟩

end Store

/-! ## Samples -/

namespace Sample

/-- The file in the directory has no mark. So it is listed as live, and the hint does not tell of
it. -/
theorem get_with_hint_nested : store.Sees nestedItems boundMemory (hosting nestedItems) ∧
    directory.isRoot = false ∧ ∃ d l,
      ((store.get directory true).run Service.backend boundMemory (hosting nestedItems)).outcome =
        .ok (some d) ∧
      ((store.listChildren directory).run Service.backend boundMemory
        (hosting nestedItems)).outcome = .ok (some l) ∧
      d.isDir = true ∧ d.emptiness = .unknown ∧ ∃ e ∈ l.entries, e.isLive = true := by
  have hs := sees_hosting nestedItems
  have hlookup : (nestedItems.lookup? store.owner directory).any Entry.isDir = true := by
    decide +kernel
  have hunmarked : ¬ ∃ item ∈ nestedItems.all, item.key.parent = directory.partition ∧
      item.get? Attribute.isDeleted = some (.bool false) := by
    decide +kernel
  have hfile : ∃ item ∈ nestedItems.all, item.key.parent = directory.partition ∧
      item.key.path?.isSome = true ∧ item.get? Attribute.isDeleted ≠ some (.bool true) := by
    decide +kernel
  obtain ⟨found, hfound, -, hdirectory⟩ := Store.get_with_hint hs (p := directory) rfl
  obtain rfl : nestedItems.lookup? store.owner directory = found :=
    Except.ok.inj ((hs.outcome_get directory false).symm.trans hfound)
  obtain ⟨d, hd, hdir⟩ := (Option.any_eq_true _ _).1 hlookup
  obtain ⟨emptiness, l, hget, hlist, hnonempty, hoccupied, hlive, -⟩ := hdirectory d hd hdir
  refine ⟨hs, rfl, _, l, hget, hlist, hdir, ?_, hlive.2 ?_⟩
  · -- of the two answers that are left, one needs a mark
    cases emptiness with
    | empty => exact absurd rfl hnonempty
    | unknown => rfl
    | occupied =>
      obtain ⟨item, ⟨hitem, hparent⟩, hmark⟩ := hoccupied.1 rfl
      exact absurd ⟨item, hitem, hparent, hmark⟩ hunmarked
  · obtain ⟨item, hitem, hparent, hpath, hmark⟩ := hfile
    exact ⟨item, ⟨hitem, hparent⟩, Option.isSome_iff_exists.1 hpath, hmark⟩

/-- The items of a table with a directory alone. In the partition of the directory there is an item
marked as not deleted, under a key that names no path. -/
def strayItems : Items :=
  Items.applyAll ∅ [.put ((Item.bare ⟨"/b", "d"⟩).setBool Attribute.isDir true),
    .put ((Item.bare ⟨"/b/d", "a/b"⟩).setBool Attribute.isDeleted false)]

/-- Hint and listing do not tell the same. A directory has a live file in it and the hint does not
say so; another directory has nothing in it and the hint says that it has. -/
theorem hint_differs_from_listing :
    let get (items : Items) := ((store.get directory true).run Service.backend boundMemory
      (hosting items)).outcome
    let list (items : Items) := ((store.listChildren directory).run Service.backend boundMemory
      (hosting items)).outcome
    (∃ d l, get nestedItems = .ok (some d) ∧ d.isDir = true ∧ list nestedItems = .ok (some l) ∧
      d.emptiness = .unknown ∧ ∃ e ∈ l.entries, e.isLive = true) ∧
    ∃ d l, get strayItems = .ok (some d) ∧ d.isDir = true ∧ list strayItems = .ok (some l) ∧
      d.emptiness = .occupied ∧ l.entries = [] := by
  intro get list
  have hget (items : Items) : get items = .ok (items.read? store.owner true directory) :=
    (sees_hosting items).outcome_get directory true
  have hlist (items : Items) : list items = .ok (items.listing? store.owner directory) :=
    (sees_hosting items).outcome_listChildren directory
  let plain : Entry := .directory directory store.owner
  simp only [hget, hlist, Except.ok.injEq]
  constructor
  · refine ⟨plain, ⟨directory, nestedItems.listed store.owner directory, false⟩, ?_⟩
    decide +kernel
  · refine ⟨{ plain with emptiness := .occupied }, ⟨directory, [], false⟩, ?_⟩
    decide +kernel

end Sample

end TableTree
