import TableTree.Program
import TableTree.Service.State
/-!
# Answers of the simulated service

Every request is counted first. A request for items is then throttled or fails if the plan says so,
before anything else is looked at.

Results:

* `Service.answer`: the answer to a request, and the service after it.
* `Service.reach`: a service can be reached in its own region only.
-/

namespace TableTree.Service

/-! ## Tables -/

/-- The resource name of a table. -/
def arn (s : Service) (name : String) : String := s!"arn:mem:table:{s.region}:table/{name}"

/-- The size of an item: its key, its attribute names, and eight bytes for each value. -/
def itemSize (key : Key) (attributes : Attributes) : Nat :=
  attributes.keys.foldl (fun total name => total + (name.utf8ByteSize + 8))
    (key.parent.utf8ByteSize + key.child.utf8ByteSize)

/-- The report on a table. -/
def report (s : Service) (name : String) (t : Table) : TableDescription where
  name := name
  arn := s.arn name
  status := t.status
  keySchema := t.keySchema
  capacity := t.capacity
  itemCount := t.items.size
  sizeBytes := t.items.toList.foldl (fun total (key, attributes) => total + itemSize key attributes) 0

/-- A table after a look at it: one that is being made or changed comes closer to being active. -/
def Table.look (t : Table) : Table :=
  match TableStatus.ofText t.status, t.pending with
  | .creating, .looks 0 | .updating, .looks 0 => { t with status := TableStatus.active.text }
  | .creating, .looks (n + 1) | .updating, .looks (n + 1) => { t with pending := .looks n }
  | _, _ => t

/-- The service with a table set. -/
def setTable (s : Service) (name : String) (t : Table) : Service :=
  { s with tables := s.tables.insert name t }

/-- The service with the items of a table changed; a missing table stays missing. -/
def mapItems (s : Service) (name : String) (f : Items → Items) : Service :=
  match s.tables[name]? with
  | none => s
  | some t => s.setTable name { t with items := f t.items }

/-- The items of a table. -/
def items? (s : Service) (name : String) : Option Items := s.tables[name]?.map Table.items

/-- The refusal of a request for a missing table. -/
def notFound (name : String) : ServiceError := .resourceNotFound s!"table {name} not found"

/-! ## The plan -/

/-- The failure that the plan has for the next request for items. -/
def takeFault (s : Service) : Option ServiceError × Service :=
  if 0 < s.plan.throttles then
    (some (.throttled
        "the level of configured provisioned throughput for the table was exceeded"),
      { s with plan := { s.plan with throttles := s.plan.throttles - 1 } })
  else if 0 < s.plan.faults then
    (some (.service 500 "injected internal server error"),
      { s with plan := { s.plan with faults := s.plan.faults - 1 } })
  else (none, s)

/-- Serves a request for items unless the plan makes it fail. -/
def unlessFault {α : Type} (s : Service) (serve : Service → Except ServiceError α × Service) :
    Except ServiceError α × Service :=
  match s.takeFault with
  | (some e, s) => (.error e, s)
  | (none, s) => serve s

/-- Whether a late write is due when one more read has been served. -/
def LateWrite.isDue (w : LateWrite) : Bool := w.reads ≤ 1

/-- The service after one more read: late writes that are due have been done. -/
def serveRead (s : Service) : Service :=
  let (due, pending) := s.plan.lateWrites.partition LateWrite.isDue
  let pending := pending.map fun w => { w with reads := w.reads - 1 }
  let s := { s with plan := { s.plan with lateWrites := pending } }
  due.foldl (fun s w => s.mapItems w.table (·.apply (.put w.item))) s

/-- Takes from the plan the number of writes to leave out of the batch with the given number. -/
def takeLeftover (s : Service) (call : Nat) : Nat × Service :=
  (s.plan.leftovers[call]?.getD 0,
    { s with plan := { s.plan with leftovers := s.plan.leftovers.erase call } })

/-! ## Requests for tables -/

/-- Reports on a table. -/
def describeTable (s : Service) (name : String) : Except ServiceError TableDescription × Service :=
  match s.tables[name]? with
  | none => (.error (notFound name), s)
  | some t => (.ok (s.report name t.look), s.setTable name t.look)

/-- Makes a table. When the plan says that somebody else makes it at the same time, the table is
made all the same but reported as being in use. -/
def createTable (s : Service) (name : String) (keySchema : KeySchema) (capacity : Capacity) :
    Except ServiceError TableDescription × Service :=
  let lost := 0 < s.plan.createRaces
  let s := { s with plan := { s.plan with createRaces := s.plan.createRaces - 1 } }
  if s.tables.contains name then
    (.error (.resourceInUse s!"table already exists: {name}"), s)
  else
    let t : Table :=
      ⟨TableStatus.creating.text, keySchema, capacity, .ofNat s.activationLooks, ∅⟩
    (if lost then .error (.resourceInUse s!"table is being created: {name}")
      else .ok (s.report name t),
      s.setTable name t)

/-- Deletes a table. -/
def deleteTable (s : Service) (name : String) : Except ServiceError Unit × Service :=
  if s.tables.contains name then (.ok (), { s with tables := s.tables.erase name })
  else (.error (notFound name), s)

/-- Changes the capacity of a table, to another one. -/
def updateTable (s : Service) (name : String) (capacity : Capacity) :
    Except ServiceError TableDescription × Service :=
  match s.tables[name]? with
  | none => (.error (notFound name), s)
  | some t =>
    if t.capacity = capacity then
      (.error (.validation "the provisioned throughput for the table will not change"), s)
    else
      let t := { t with
        capacity := capacity
        status := TableStatus.updating.text
        pending := .ofNat s.activationLooks }
      (.ok (s.report name t), s.setTable name t)

/-! ## Requests for items -/

/-- Reads from the items of a table. -/
def readItems {α : Type} (s : Service) (name : String) (f : Items → α) : Except ServiceError α :=
  match s.items? name with
  | none => .error (notFound name)
  | some items => .ok (f items)

/-- Changes the items of a table. -/
def writeItems (s : Service) (name : String) (f : Items → Items) :
    Except ServiceError Unit × Service :=
  match s.items? name with
  | none => (.error (notFound name), s)
  | some _ => (.ok (), s.mapItems name f)

/-- Reads one item. Late writes get closer whether the table is there or not. -/
def getItem (s : Service) (name : String) (key : Key) :
    Except ServiceError (Option Item) × Service :=
  (s.readItems name (·.item? key), s.serveRead)

/-- Applies a batch of writes with different keys in order, and gives those at its end that the plan
leaves out of the batch with the given number. -/
def batchWrite (s : Service) (call : Nat) (name : String) (writes : List Write) :
    Except ServiceError (List Write) × Service :=
  if writes.length = 0 ∨ maxBatch < writes.length then
    (.error (.validation
      s!"batch must contain between 1 and {maxBatch} requests, got {writes.length}"), s)
  else if ¬ (writes.map Write.key).Nodup then
    (.error (.validation "provided list of item keys contains duplicates"), s)
  else
    let (skip, s) := s.takeLeftover call
    let served := writes.length - skip
    match s.writeItems name (·.applyAll (writes.take served)) with
    | (.error e, s) => (.error e, s)
    | (.ok (), s) => (.ok (writes.drop served), s)

/-! ## All requests -/

/-- Counts a call. -/
def count (s : Service) : Request → Service
  | .describeTable _ =>
    { s with counts := { s.counts with describeTable := s.counts.describeTable + 1 } }
  | .createTable .. => { s with counts := { s.counts with createTable := s.counts.createTable + 1 } }
  | .deleteTable _ => { s with counts := { s.counts with deleteTable := s.counts.deleteTable + 1 } }
  | .updateTable .. => { s with counts := { s.counts with updateTable := s.counts.updateTable + 1 } }
  | .getItem .. => { s with counts := { s.counts with getItem := s.counts.getItem + 1 } }
  | .putItem .. => { s with counts := { s.counts with putItem := s.counts.putItem + 1 } }
  | .deleteItem .. => { s with counts := { s.counts with deleteItem := s.counts.deleteItem + 1 } }
  | .query .. => { s with counts := { s.counts with query := s.counts.query + 1 } }
  | .scan .. => { s with counts := { s.counts with scan := s.counts.scan + 1 } }
  | .batchWrite _ writes =>
    { s with counts := { s.counts with
      batchWrite := s.counts.batchWrite + 1
      batchSizes := s.counts.batchSizes ++ [writes.length] } }

/-- Serves a request that has been counted. -/
def serve : (r : Request) → Service → r.Answer × Service
  | .describeTable name, s => s.describeTable name
  | .createTable name keySchema capacity, s => s.createTable name keySchema capacity
  | .deleteTable name, s => s.deleteTable name
  | .updateTable name capacity, s => s.updateTable name capacity
  | .getItem name key, s => s.unlessFault (·.getItem name key)
  | .putItem name item, s => s.unlessFault (·.writeItems name (·.apply (.put item)))
  | .deleteItem name key, s => s.unlessFault (·.writeItems name (·.apply (.delete key)))
  | .query name parent filter, s =>
    s.unlessFault fun s =>
      (s.readItems name fun items =>
        Items.select (items.all.filter fun item => item.key.parent = parent) filter, s)
  | .scan name filter, s =>
    s.unlessFault fun s => (s.readItems name fun items => Items.select items.all filter, s)
  | .batchWrite name writes, s =>
    s.unlessFault fun s => s.batchWrite (s.counts.batchWrite - 1) name writes

/-- The answer to a request, and the service after it. -/
def answer (s : Service) (r : Request) : r.Answer × Service := serve r (s.count r)

/-- Whether the service can be reached in a region. -/
def reach (s : Service) (region : String) : Except ServiceError Unit :=
  if region = s.region then .ok ()
  else .error (.validation s!"memtable service is bound to region {s.region}, not {region}")

end TableTree.Service
