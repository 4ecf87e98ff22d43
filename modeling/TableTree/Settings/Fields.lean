import TableTree.Number.Real
import TableTree.Settings.Basic
import TableTree.Time.Seconds
/-!
# Settings by name

Documents name settings by texts and give durations in seconds.

Results:

* `Settings.fields`: all settings with their names.
* `Settings.set?`: the settings with one of them set by its name.
* `Settings.ofFields?`: the settings with given names and values, and the others at their defaults.
-/

namespace TableTree

/-- The value of a setting in a document. -/
inductive SettingValue where
  | text (s : String)
  | flag (b : Bool)
  | integer (n : Int)
  | real (x : Real64)
  /-- a value that no setting takes -/
  | other
deriving DecidableEq

/-- A number of seconds as a duration; refused below zero and where it is no number. -/
def Duration.ofReal? : Real64 → Option Duration
  | .finite negative x => if negative ∧ x.mantissa ≠ 0 then none else ofBinarySeconds? x
  | .infinite _ | .notANumber => none

namespace SettingValue

/-- A text. -/
def text? : SettingValue → Option String
  | .text s => some s
  | _ => none

/-- Yes or no. -/
def flag? : SettingValue → Option Bool
  | .flag b => some b
  | _ => none

/-- A natural number below a bound. -/
def below? (bound : Nat) : SettingValue → Option Nat
  | .integer n => if 0 ≤ n ∧ n < bound then some n.toNat else none
  | _ => none

/-- A signed integer of 64 bits. -/
def long? : SettingValue → Option Int64
  | .integer n =>
    if Int64.minValue.toInt ≤ n ∧ n ≤ Int64.maxValue.toInt then some (Int64.ofInt n) else none
  | _ => none

/-- A count of 32 bits. -/
def count? (v : SettingValue) : Option UInt32 := (v.below? UInt32.size).map UInt32.ofNat

/-- A duration in seconds. -/
def seconds? : SettingValue → Option Duration
  | .integer n => (Real64.ofInt? n).bind Duration.ofReal?
  | .real x => Duration.ofReal? x
  | _ => none

/-- The value of a duration. -/
def ofSeconds (d : Duration) : SettingValue := .real (.finite false d.binarySeconds)

end SettingValue

namespace Settings

/-- All settings with their names. -/
def fields (s : Settings) : List (String × SettingValue) :=
  [("table_name", .text s.tableName),
   ("region", .text s.region),
   ("owner", .text s.owner),
   ("create_table", .flag s.createTable),
   ("read_capacity", .integer s.readCapacity.toInt),
   ("write_capacity", .integer s.writeCapacity.toInt),
   ("max_retries", .integer s.maxRetries.toNat),
   ("min_retry_sleep", .ofSeconds s.minRetrySleep),
   ("max_retry_sleep", .ofSeconds s.maxRetrySleep),
   ("batch_write_limit", .integer s.batchWriteLimit),
   ("background_sleep", .ofSeconds s.backgroundSleep),
   ("table_poll_interval", .ofSeconds s.tablePollInterval),
   ("table_wait_max_polls", .integer s.tableWaitMaxPolls.toNat),
   ("throttle_log_limit", .integer s.throttleLogLimit.toNat)]

/-- The settings with one of them set by its name, if the value is of its kind. A name of no setting
changes nothing. -/
def set? (s : Settings) (name : String) (v : SettingValue) : Option Settings :=
  match name with
  | "table_name" => v.text?.map fun x => { s with tableName := x }
  | "region" => v.text?.map fun x => { s with region := x }
  | "owner" => v.text?.map fun x => { s with owner := x }
  | "create_table" => v.flag?.map fun x => { s with createTable := x }
  | "read_capacity" => v.long?.map fun x => { s with readCapacity := x }
  | "write_capacity" => v.long?.map fun x => { s with writeCapacity := x }
  | "max_retries" => v.count?.map fun x => { s with maxRetries := x }
  | "min_retry_sleep" => v.seconds?.map fun x => { s with minRetrySleep := x }
  | "max_retry_sleep" => v.seconds?.map fun x => { s with maxRetrySleep := x }
  | "batch_write_limit" => (v.below? UInt64.size).map fun x => { s with batchWriteLimit := x }
  | "background_sleep" => v.seconds?.map fun x => { s with backgroundSleep := x }
  | "table_poll_interval" => v.seconds?.map fun x => { s with tablePollInterval := x }
  | "table_wait_max_polls" => v.count?.map fun x => { s with tableWaitMaxPolls := x }
  | "throttle_log_limit" =>
    (v.below? UInt64.size).map fun x => { s with throttleLogLimit := UInt64.ofNat x }
  | _ => some s

/-- The default settings with the given ones in their place. -/
def ofFields? (fields : List (String × SettingValue)) : Option Settings :=
  fields.foldlM (fun s (name, value) => s.set? name value) {}

end Settings

end TableTree
