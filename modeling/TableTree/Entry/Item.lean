import TableTree.Entry.Basic
import TableTree.Path.Key
/-!
# Entries as items

A directory keeps the mark `is_dir`, a file its length, time and block size; both keep whether they
are deleted. The owner and what is known about the children are not kept.

Results:

* `Entry.item?`: the item of an entry; an entry at a root has none.
* `Entry.ofItem?`: the entry of an item, if its key has a path.
* `Item.isLive`, `Filter.live`, `Filter.expired`: the readers of the marks.
-/

namespace TableTree

namespace Attribute

/-- Marks a directory. -/
def isDir : String := "is_dir"

/-- The time of the last change. -/
def modTime : String := "mod_time"

/-- The length of a file. -/
def length : String := "length"

/-- The block size of a file. -/
def blockSize : String := "block_size"

/-- Whether the entry is a tombstone. -/
def isDeleted : String := "is_deleted"

end Attribute

/-- The item of an entry under a key. -/
def Entry.itemAt (e : Entry) (key : Key) : Item :=
  let shape :=
    if e.isDir then (Item.bare key).setBool Attribute.isDir true
    else (((Item.bare key).setLong Attribute.length e.length).setLong Attribute.modTime
      e.modTime).setLong Attribute.blockSize e.blockSize
  shape.setBool Attribute.isDeleted e.isDeleted

/-- The item of an entry; a root has no key and so no item. -/
def Entry.item? (e : Entry) : Option Item := e.path.key?.map e.itemAt

/-- The item of an entry, or the fault of a root. -/
def Entry.item (e : Entry) : Except PathFault Item := e.path.key.map e.itemAt

/-- The items of a list of entries, or the fault of the first root among them. -/
def Entry.items (es : List Entry) : Except PathFault (List Item) := es.mapM Entry.item

/-- The entry of an item, with the given owner. An attribute that is missing or of the wrong type
counts as false or zero. -/
def Entry.ofItem? (item : Item) (owner : String) : Option Entry :=
  item.key.path?.map fun path =>
    let shape :=
      if (item.bool? Attribute.isDir).getD false then Entry.directory path owner
      else Entry.file path ((item.long? Attribute.length).getD 0)
        ((item.long? Attribute.modTime).getD 0) ((item.long? Attribute.blockSize).getD 0) owner
    { shape with isDeleted := (item.bool? Attribute.isDeleted).getD false }

/-- Whether an item is no tombstone. -/
def Item.isLive (item : Item) : Bool := !(item.bool? Attribute.isDeleted).getD false

/-- The filter for items that are marked as not deleted. -/
def Filter.live : Filter := .equals Attribute.isDeleted (.bool false)

/-- The filter for items last changed before a time. A directory has no time and is never met. -/
def Filter.expired (before : Int64) : Filter := .lessThan Attribute.modTime before

@[simp] theorem Entry.key_itemAt (e : Entry) (key : Key) : (e.itemAt key).key = key := by
  unfold itemAt
  cases e.isDir <;> rfl

theorem Entry.item?_eq_none_iff {e : Entry} : e.item? = none ↔ e.path.isRoot = true := by
  simp [item?, Path.key?_eq_none_iff]

end TableTree
