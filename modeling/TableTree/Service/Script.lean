import TableTree.Host
import TableTree.Service.Control
/-!
# Backends made of the simulated service

Results:

* `Service.backend`: the service as a backend.
* `Scripted.backend`: a backend whose requests may be answered from a script instead.
-/

namespace TableTree

/-- The simulated service as a backend. -/
def Service.backend : Backend Service := ⟨fun r s => s.answer r⟩

/-- The name that scripts give to a request. -/
def Request.name : Request → String
  | .describeTable _ => "describe_table"
  | .createTable .. => "create_table"
  | .deleteTable _ => "delete_table"
  | .updateTable .. => "update_table"
  | .getItem .. => "get_item"
  | .putItem .. => "put_item"
  | .deleteItem .. => "delete_item"
  | .query .. => "query"
  | .scan .. => "scan"
  | .batchWrite .. => "batch_write"

/-- A backend with a script: for each name of a request, what happens to the next ones of it. An
error is the answer; without one the request goes on to the backend. -/
structure Scripted (σ : Type) where
  inner : σ
  script : Std.ExtTreeMap String (List (Option ServiceError)) := ∅

namespace Scripted

variable {σ : Type}

/-- Adds to what happens to the requests of a name. -/
def add (s : Scripted σ) (name : String) (fates : List (Option ServiceError)) : Scripted σ :=
  { s with script := s.script.insert name (s.script[name]?.getD [] ++ fates) }

/-- What happens to the next request of a name, taken from the script. -/
def take (s : Scripted σ) (name : String) : Option ServiceError × Scripted σ :=
  match s.script[name]? with
  | some (fate :: further) => (fate, { s with script := s.script.insert name further })
  | _ => (none, s)

/-- A backend behind a script. -/
def backend (b : Backend σ) : Backend (Scripted σ) where
  answer r s :=
    match s.take r.name with
    | (some e, s) => (.error e, s)
    | (none, s) =>
      let (answer, inner) := b.answer r s.inner
      (answer, { s with inner := inner })

end Scripted

end TableTree
