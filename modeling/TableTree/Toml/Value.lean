import TableTree.Number.Real
import TableTree.Toml.Moment
/-!
# Values and tables

A document is a table. Its tables are opened by headers and filled by pairs; each key of a table is
set once. Some tables come into being on the way to another one, and what may still be added to
a table hangs on how it came into being.

Results:

* `Value`, `Fields`: values and the fields of a table.
* `insert?`: a pair added to a table.
* `within?`: a change to the table that a header names, `openTable?` and `openRow?` for the change
  that a header asks for.
-/

namespace TableTree.Toml

/-- How a table came into being. -/
inductive Origin where
  /-- in braces: nothing can be added -/
  | braces
  /-- by a key with dots: further keys with dots can add to it -/
  | dotted
  /-- on the way of a header: a later header can still open it -/
  | implied
  /-- by a header of its own -/
  | header
deriving DecidableEq

/-- A value of a document. -/
inductive Value where
  | text (s : String)
  | integer (n : Int64)
  | real (x : Real64)
  | flag (b : Bool)
  | moment (m : Moment)
  | array (items : List Value)
  | table (origin : Origin) (fields : List (String × Value))
  /-- tables under one header, the last one first -/
  | rows (last : List (String × Value)) (earlier : List (List (String × Value)))

/-- The fields of a table in the order in which they came into being. -/
abbrev Fields := List (String × Value)

namespace Fields

/-- The value of a key. -/
def get? (fields : Fields) (key : String) : Option Value := fields.lookup key

/-- The fields with another value for a key that is there. -/
def replace (fields : Fields) (key : String) (value : Value) : Fields :=
  fields.map fun (k, v) => if k = key then (k, value) else (k, v)

/-- Adds a pair whose key runs through the tables `path`. A pair may end in the table it starts
from and in tables that keys with dots made, and only there (`mayEnd`); it cannot enter a table in
braces or one that a header opened, and it cannot set a key again. -/
def insert? (mayEnd : Bool) (fields : Fields) :
    (path : List String) → (key : String) → (value : Value) → Option Fields
  | [], key, value =>
    if mayEnd && (fields.get? key).isNone then some (fields ++ [(key, value)]) else none
  | step :: path, key, value =>
    match fields.get? step with
    | none => (insert? true [] path key value).map fun inner =>
        fields ++ [(step, .table .dotted inner)]
    | some (.table .dotted inner) => (insert? true inner path key value).map fun inner =>
        fields.replace step (.table .dotted inner)
    | some (.table .implied inner) => (insert? false inner path key value).map fun inner =>
        fields.replace step (.table .implied inner)
    | some (.rows last earlier) => (insert? false last path key value).map fun last =>
        fields.replace step (.rows last earlier)
    | some _ => none

/-- Changes the table at the end of a header's path. The tables on the way are made where they are
missing, and of several tables under one header the last one is meant. -/
def within? (change : Fields → Option Fields) : (path : List String) → Fields → Option Fields
  | [], fields => change fields
  | step :: path, fields =>
    match fields.get? step with
    | none => (within? change path []).map fun inner =>
        fields ++ [(step, .table .implied inner)]
    | some (.table .braces _) => none
    | some (.table origin inner) => (within? change path inner).map fun inner =>
        fields.replace step (.table origin inner)
    | some (.rows last earlier) => (within? change path last).map fun last =>
        fields.replace step (.rows last earlier)
    | some _ => none

/-- Opens a table that is missing or was only made on the way of a header. -/
def openTable? (fields : Fields) (key : String) : Option Fields :=
  match fields.get? key with
  | none => some (fields ++ [(key, .table .header [])])
  | some (.table .implied inner) => some (fields.replace key (.table .header inner))
  | some _ => none

/-- Opens one more table under a header that stands for several. -/
def openRow? (fields : Fields) (key : String) : Option Fields :=
  match fields.get? key with
  | none => some (fields ++ [(key, .rows [] [])])
  | some (.rows last earlier) => some (fields.replace key (.rows [] (last :: earlier)))
  | some _ => none

end Fields

end TableTree.Toml
