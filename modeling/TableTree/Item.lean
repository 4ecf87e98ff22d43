import Std.Data.ExtTreeMap
/-!
# Items of the table

The table holds items: a key in two parts and named attributes. Items of one partition, which
share the first part of the key, are ordered by the second.

Results:

* `Key.instTransOrd`, `Key.instLawfulEqOrd`: keys are ordered by parent, then by child.
* `Item.get?_set`: the attribute set last is the one read.
* `Filter.accepts`: which items a filter lets through.
-/

namespace TableTree

/-- The largest number of writes in one batch. -/
def maxBatch : Nat := 25

/-- The key of an item: its partition and its place within the partition. -/
structure Key where
  parent : String
  child : String
deriving DecidableEq, Repr

namespace Key

instance : Ord Key := ⟨compareLex (compareOn parent) (compareOn child)⟩

instance instTransOrd : Std.TransOrd Key :=
  inferInstanceAs (Std.TransCmp (compareLex (compareOn parent) (compareOn child)))

instance instLawfulEqOrd : Std.LawfulEqOrd Key where
  eq_of_compare {a b} h := by
    obtain ⟨hp, hc⟩ := compareLex_eq_eq.1 h
    simp only [compareOn, Std.LawfulEqOrd.compare_eq_iff_eq] at hp hc
    cases a; cases b; cases hp; cases hc; rfl

/-- The printed form of a key. -/
def text (k : Key) : String := s!"({k.parent}, {k.child})"

end Key

/-- The value of an attribute. -/
inductive Value
  | bool (b : Bool)
  | long (n : Int64)
deriving DecidableEq

/-- Attributes by name. -/
abbrev Attributes := Std.ExtTreeMap String Value

/-- A key with its attributes. -/
structure Item where
  key : Key
  attributes : Attributes
deriving DecidableEq

namespace Item

/-- The item of a key without attributes. -/
def bare (key : Key) : Item := ⟨key, ∅⟩

/-- The item with an attribute set. -/
def set (item : Item) (name : String) (value : Value) : Item :=
  ⟨item.key, item.attributes.insert name value⟩

/-- The item with a truth value set. -/
def setBool (item : Item) (name : String) (b : Bool) : Item := item.set name (.bool b)

/-- The item with an integer set. -/
def setLong (item : Item) (name : String) (n : Int64) : Item := item.set name (.long n)

/-- The attribute of a name. -/
def get? (item : Item) (name : String) : Option Value := item.attributes[name]?

/-- Whether there is an attribute of a name. -/
def has (item : Item) (name : String) : Bool := (item.get? name).isSome

/-- The truth value of a name; none when it is absent or an integer. -/
def bool? (item : Item) (name : String) : Option Bool :=
  match item.get? name with
  | some (.bool b) => some b
  | _ => none

/-- The integer of a name; none when it is absent or a truth value. -/
def long? (item : Item) (name : String) : Option Int64 :=
  match item.get? name with
  | some (.long n) => some n
  | _ => none

@[simp] theorem key_set (item : Item) (name : String) (v : Value) :
    (item.set name v).key = item.key := rfl

@[simp] theorem get?_bare (key : Key) (name : String) : (bare key).get? name = none := by
  simp [bare, get?]

theorem get?_set (item : Item) (name other : String) (v : Value) :
    (item.set name v).get? other = if name = other then some v else item.get? other := by
  simp [set, get?, Std.ExtTreeMap.getElem?_insert]

end Item

/-- A condition on items, applied by the service. -/
inductive Filter
  /-- the attribute has the value -/
  | equals (name : String) (value : Value)
  /-- the attribute is an integer below the bound -/
  | lessThan (name : String) (bound : Int64)
deriving DecidableEq

/-- Whether an item meets a condition; one without the attribute never does. -/
def Filter.accepts : Filter → Item → Bool
  | .equals name value, item => item.get? name = some value
  | .lessThan name bound, item =>
    match item.long? name with
    | some n => n < bound
    | none => false

/-- One element of a batch. -/
inductive Write
  /-- stores an item, replacing the one of its key -/
  | put (item : Item)
  /-- removes the item of a key, if there is one -/
  | delete (key : Key)
deriving DecidableEq

namespace Write

/-- The key that a write is about. -/
def key : Write → Key
  | .put item => item.key
  | .delete key => key

/-- Whether a write removes. -/
def isDelete : Write → Bool
  | .put _ => false
  | .delete _ => true

end Write

end TableTree
