import TableTree.Program
/-!
# Operations of a store

An operation is a program that may fail with a store error and that keeps a memory, failed or not:
what the store knows of its table and how often it was throttled.

Results:

* `Memory`, `Operation`: the memory of a store and operations on it.
* `Operation.perform`, `Operation.outcome`: a program as an operation, and the outcome of an
  operation as a value.
-/

namespace TableTree

/-- What binding to a table has found or done. -/
structure Binding where
  /-- whether the table was made -/
  createdTable : Bool
  version : Int64
  /-- when the table was made, if its marker says so -/
  createdAt : Option Int64
deriving DecidableEq

/-- What a store remembers between its operations. -/
structure Memory where
  /-- the count of how often the service throttled or left out writes, which starts again at zero
  after the largest number -/
  throttleCount : UInt64 := 0
  /-- the outcome of binding to the table, once it has succeeded -/
  binding : Option Binding := none
  /-- whether the table was deleted through this store -/
  destroyed : Bool := false
deriving DecidableEq

/-- How often the service throttled or left out writes, as it was counted. -/
def Memory.throttleEvents (m : Memory) : Nat := m.throttleCount.toNat

/-- A program with a memory that may fail with a store error. -/
abbrev Operation (α : Type) : Type := ExceptT StoreError (StateT Memory Program) α

namespace Operation

variable {α : Type}

/-- The program of an operation, from a memory to an outcome and a memory. -/
def start (x : Operation α) (m : Memory) : Program (Except StoreError α × Memory) :=
  (ExceptT.run x).run m

/-- A program as an operation. -/
def perform (p : Program α) : Operation α := ExceptT.lift (StateT.lift p)

/-- An operation that gives its outcome as a value and does not fail. -/
def outcome (x : Operation α) : Operation (Except StoreError α) := ExceptT.lift (ExceptT.run x)

/-- A value, or the failure of the operation. -/
def ofResult (x : Except StoreError α) : Operation α := ExceptT.mk (pure x)

/-- A value, or a misuse by the caller. -/
def ofPath (x : Except PathFault α) : Operation α :=
  ofResult (x.mapError fun fault => .invalidArgument (.path fault))

end Operation

end TableTree
