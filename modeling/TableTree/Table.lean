import TableTree.Text.Quoted
/-!
# Tables

What the service reports about a table: its status, its key schema, its capacity and its size.

Results:

* `TableStatus.ofText`, `TableStatus.text`: a status and its text; `text_ofText` says that no text
  is lost.
-/

namespace TableTree

/-- The state of a table. -/
inductive TableStatus
  | creating
  | updating
  | deleting
  | active
  /-- a state that is none of the others -/
  | unrecognized (text : String)
deriving DecidableEq

namespace TableStatus

/-- The status that a text stands for. -/
def ofText : String → TableStatus
  | "CREATING" => .creating
  | "UPDATING" => .updating
  | "DELETING" => .deleting
  | "ACTIVE" => .active
  | text => .unrecognized text

/-- The text of a status. -/
def text : TableStatus → String
  | .creating => "CREATING"
  | .updating => "UPDATING"
  | .deleting => "DELETING"
  | .active => "ACTIVE"
  | .unrecognized text => text

/-- The status as a term: its name, and the quoted text of one that is not recognised. -/
def term : TableStatus → String
  | .creating => "Creating"
  | .updating => "Updating"
  | .deleting => "Deleting"
  | .active => "Active"
  | .unrecognized text => s!"Unrecognized({Text.quoted text})"

@[simp] theorem text_ofText (s : String) : (ofText s).text = s := by
  unfold ofText
  split <;> rfl

end TableStatus

/-- The attributes that hold the two parts of a key. -/
structure KeySchema where
  hashKey : String := "parent"
  rangeKey : String := "child"
deriving DecidableEq

/-- The provisioned units of reads and writes. -/
structure Capacity where
  read : Int64
  write : Int64
deriving DecidableEq

/-- A report on a table. -/
structure TableDescription where
  name : String
  arn : String
  /-- the status as the service words it -/
  status : String
  keySchema : KeySchema
  capacity : Capacity
  itemCount : Nat
  sizeBytes : Nat
deriving DecidableEq

/-- The status of the table that a report is about. -/
def TableDescription.tableStatus (d : TableDescription) : TableStatus := .ofText d.status

/-- A record as a term: its name and its fields with their values. -/
def recordTerm (name : String) (fields : List (String × String)) : String :=
  name ++ " \x7b " ++ ", ".intercalate (fields.map fun (field, value) => s!"{field}: {value}") ++
    " \x7d"

/-- A key schema as a term. -/
def KeySchema.term (s : KeySchema) : String :=
  recordTerm "KeySchema"
    [("hash_key", Text.quoted s.hashKey), ("range_key", Text.quoted s.rangeKey)]

/-- A capacity as a term. -/
def Capacity.term (c : Capacity) : String :=
  recordTerm "ProvisionedThroughput"
    [("read_capacity_units", toString c.read), ("write_capacity_units", toString c.write)]

/-- A report as a term. -/
def TableDescription.term (d : TableDescription) : String :=
  recordTerm "TableDescription"
    [("name", Text.quoted d.name), ("arn", Text.quoted d.arn), ("status", Text.quoted d.status),
      ("key_schema", d.keySchema.term), ("throughput", d.capacity.term),
      ("item_count", toString d.itemCount), ("size_bytes", toString d.sizeBytes)]

end TableTree
