import TableTree.Item
import TableTree.Table
/-!
# State of the simulated service

A service with its tables in memory. It keeps count of its calls and follows a plan of what is to go
wrong.

Results:

* `Service`: the state; `Service.Table`: a table with its items.
* `Items.item?_apply`, `Items.item?_applyAll_of_not_mem`: what writes do to the items.
-/

namespace TableTree

/-- The items of a table by key. -/
abbrev Items := Std.ExtTreeMap Key Attributes

namespace Items

/-- The item of a key. -/
def item? (items : Items) (key : Key) : Option Item := items[key]?.map (Item.mk key)

/-- All items in the order of their keys. -/
def all (items : Items) : List Item := items.toList.map fun (key, attributes) => ⟨key, attributes⟩

/-- The items after a write. -/
def apply (items : Items) : Write → Items
  | .put item => items.insert item.key item.attributes
  | .delete key => items.erase key

/-- The items after writes, one after the other. -/
def applyAll (items : Items) (writes : List Write) : Items := writes.foldl apply items

/-- The items that meet a condition, or all of them. -/
def select (items : List Item) (filter : Option Filter) : List Item :=
  items.filter fun item => filter.all (·.accepts item)

@[simp] theorem select_none (items : List Item) : select items none = items := by
  simp [select]

@[simp] theorem applyAll_nil (items : Items) : applyAll items [] = items := rfl

@[simp] theorem applyAll_cons (items : Items) (w : Write) (ws : List Write) :
    applyAll items (w :: ws) = applyAll (apply items w) ws := rfl

theorem applyAll_append (items : Items) (ws ws' : List Write) :
    applyAll items (ws ++ ws') = applyAll (applyAll items ws) ws' :=
  List.foldl_append ..

/-- A write changes the item of its key and no other. -/
theorem item?_apply (items : Items) (w : Write) (key : Key) :
    item? (apply items w) key =
      if w.key = key then (match w with | .put item => some item | .delete _ => none)
      else item? items key := by
  cases w with
  | put item =>
    by_cases h : item.key = key
    · subst h
      simp [apply, item?, Write.key]
    · simp [apply, item?, Write.key, Std.ExtTreeMap.getElem?_insert, h]
  | delete k =>
    by_cases h : k = key
    · simp [apply, item?, Write.key, h]
    · simp [apply, item?, Write.key, Std.ExtTreeMap.getElem?_erase, h]

/-- Writes leave the item of a key alone that is none of theirs. -/
theorem item?_applyAll_of_not_mem {writes : List Write} {key : Key}
    (h : key ∉ writes.map Write.key) (items : Items) :
    item? (applyAll items writes) key = item? items key := by
  induction writes generalizing items with
  | nil => rfl
  | cons w ws ih =>
    rw [List.map_cons, List.mem_cons, not_or] at h
    rw [applyAll_cons, ih h.2, item?_apply, if_neg (Ne.symm h.1)]

end Items

namespace Service

/-- When a table that is being made or changed becomes active. -/
inductive Pending
  /-- after so many more looks that still see it pending -/
  | looks (left : Nat)
  /-- not at all -/
  | never
deriving DecidableEq

/-- The largest number of 64 bits as a number of looks means that they never end. -/
def Pending.ofNat (n : Nat) : Pending :=
  if n = UInt64.size - 1 then .never else .looks n

/-- A table with its items. -/
structure Table where
  /-- the status as the service words it -/
  status : String
  keySchema : KeySchema
  capacity : Capacity
  pending : Pending
  items : Items

/-- An item that somebody else stores once a number of reads has been served. -/
structure LateWrite where
  table : String
  item : Item
  /-- the number of reads still to be served -/
  reads : Nat

/-- What is to go wrong. -/
structure Plan where
  /-- the number of calls still to be throttled -/
  throttles : Nat := 0
  /-- the number of calls still to fail -/
  faults : Nat := 0
  /-- how many writes are left out at the end of the batch with a given number -/
  leftovers : Std.ExtTreeMap Nat Nat := ∅
  /-- the number of tables that somebody else makes at the same time -/
  createRaces : Nat := 0
  lateWrites : List LateWrite := []

/-- How often each call was made. -/
structure CallCounts where
  describeTable : Nat := 0
  createTable : Nat := 0
  deleteTable : Nat := 0
  updateTable : Nat := 0
  getItem : Nat := 0
  putItem : Nat := 0
  deleteItem : Nat := 0
  query : Nat := 0
  scan : Nat := 0
  batchWrite : Nat := 0
  /-- the lengths of the batches in the order of their calls -/
  batchSizes : List Nat := []
deriving DecidableEq

end Service

/-- A service of one region. -/
structure Service where
  region : String
  tables : Std.ExtTreeMap String Service.Table := ∅
  plan : Service.Plan := {}
  counts : Service.CallCounts := {}
  /-- the number of looks that see a table pending after it was made or changed -/
  activationLooks : Nat := 0

end TableTree
