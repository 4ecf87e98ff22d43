import TableTree.Proofs.PutEffect

/-!
# Entries read back from their items

A directory and a file have different attributes in the table, and what an item does not have is filled
in when it is read. So an entry is read back as the table keeps it, and that has the same item again.
Whether an entry is deleted is told alike by the entry that is read, by the item, and by the filter
that the service applies.

Results:

* `Entry.itemAt_kept`: the item of what the table keeps of an entry.
* `Filter.accepts_live_itemAt`: the filter for items that are marked as not deleted.
* `Entry.survives_item`: which entries have an item, and what is read from it.
-/

namespace TableTree

/-- What the table keeps of an entry has the item of the entry. -/
theorem Entry.itemAt_kept (e : Entry) (owner : String) (key : Key) :
    (e.kept owner).itemAt key = e.itemAt key := by
  unfold itemAt kept
  cases e.isDir <;> rfl

/-- An item is marked as not deleted exactly if its entry is no tombstone. -/
theorem Filter.accepts_live_itemAt (e : Entry) (key : Key) :
    Filter.live.accepts (e.itemAt key) = e.isLive := by
  have hmark : (e.itemAt key).get? Attribute.isDeleted = some (.bool e.isDeleted) := by
    rw [Entry.itemAt, Item.setBool, Item.get?_set, if_pos rfl]
  rw [Filter.live, accepts, hmark, Entry.isLive]
  cases e.isDeleted <;> rfl

/-- **Entries and their items.** An entry at a root has no item. Any other entry has one, and what is
read from it is the entry as the table keeps it: with the given owner, with nothing known about its
children, and for a directory without time and sizes. The item of that is the same again. The item
counts as live, for whoever reads it and for the filter of the service, exactly if the entry is no
tombstone. -/
theorem Entry.survives_item (e : Entry) (owner : String) :
    (e.path.isRoot = true ↔ e.item = .error (.rootKey e.path)) ∧
    (e.path.isRoot = false ↔ ∃ item, e.item = .ok item ∧
      ofItem? item owner = some (e.kept owner) ∧ (e.kept owner).item = .ok item ∧
      item.isLive = !e.isDeleted ∧ Filter.live.accepts item = !e.isDeleted) := by
  have hroot : e.path.isRoot = true ↔ e.item = .error (.rootKey e.path) := by
    rw [← Path.key_eq_error_iff, item]
    cases e.path.key <;> simp [Except.map]
  refine ⟨hroot, fun hbelow => ?_, ?_⟩
  · obtain ⟨key, hkey⟩ := Path.exists_key?_of_isRoot hbelow
    have hagain : (e.kept owner).item = .ok ((e.kept owner).itemAt key) := item_of_key? hkey
    rw [e.itemAt_kept] at hagain
    exact ⟨e.itemAt key, item_of_key? hkey, ofItem?_itemAt hkey owner, hagain,
      isLive_itemAt e key, Filter.accepts_live_itemAt e key⟩
  · rintro ⟨item, hitem, -⟩
    rw [← Bool.not_eq_true, hroot, hitem]
    intro herror
    cases herror

end TableTree
