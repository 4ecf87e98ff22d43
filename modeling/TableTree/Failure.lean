import TableTree.Path.Key
import TableTree.Text.Integer
/-!
# Failures

The service reports a `ServiceError`; the store reports a `StoreError`, which says what was done to
what when it failed, or what the caller did wrong.

Results:

* `ServiceError.message`, `StoreError.message`, `Misuse.message`: the wordings.
* `StoreError.kind`: the class of an error.
-/

namespace TableTree

/-- Why the service refused a request. -/
inductive ServiceError
  /-- the table does not exist -/
  | resourceNotFound (text : String)
  /-- the table is being made or changed -/
  | resourceInUse (text : String)
  /-- the request was above the provisioned capacity -/
  | throttled (text : String)
  /-- the request was malformed -/
  | validation (text : String)
  /-- the service failed -/
  | service (status : UInt16) (text : String)
  /-- the request or its answer was lost -/
  | network (text : String)
deriving DecidableEq

namespace ServiceError

/-- The wording of a service error. -/
def message : ServiceError → String
  | .resourceNotFound text => s!"resource not found: {text}"
  | .resourceInUse text => s!"resource in use: {text}"
  | .throttled text => s!"provisioned throughput exceeded: {text}"
  | .validation text => s!"validation error: {text}"
  | .service status text => s!"service error ({status}): {text}"
  | .network text => s!"network error: {text}"

/-- Whether the request was refused for its rate. -/
def isThrottle : ServiceError → Bool
  | .throttled _ => true
  | _ => false

/-- Whether the same request will be refused again. -/
def isPermanent : ServiceError → Bool
  | .resourceNotFound _ | .resourceInUse _ | .validation _ => true
  | _ => false

end ServiceError

/-- Why a file cannot be read as a text. -/
inductive FileFault
  | missing
  | denied
  | directory
  /-- its bytes are no text in UTF-8 -/
  | notText
  /-- anything else -/
  | other (text : String)
deriving DecidableEq

/-- The wording of the fault of a file. -/
def FileFault.message : FileFault → String
  | .missing => "No such file or directory (os error 2)"
  | .denied => "Permission denied (os error 13)"
  | .directory => "Is a directory (os error 21)"
  | .notText => "stream did not contain valid UTF-8"
  | .other text => text

/-- What a caller did wrong. -/
inductive Misuse
  | path (fault : PathFault)
  /-- the settings name no table -/
  | noTableName
  /-- the settings name no region -/
  | noRegion
  /-- the settings ask for batches of a size that the service refuses -/
  | batchLimit (given : Nat)
  /-- the settings ask for a table without capacity -/
  | noCapacity
  /-- the settings' shortest wait is above the longest -/
  | sleepOrder
  /-- the settings' document could not be read -/
  | unreadable (file : String) (fault : FileFault)
  /-- the settings' document is malformed -/
  | malformed
  /-- a change of capacity to nothing -/
  | capacity (read write : Int64)
  /-- a parameter that is no integer -/
  | parameter (name value : String) (fault : Text.IntegerFault)
  /-- a version marker without a version -/
  | markerWithoutVersion (key : Key)
  /-- anything else -/
  | other (text : String)
deriving DecidableEq

/-- The wording of a misuse. -/
def Misuse.message : Misuse → String
  | .path fault => fault.message
  | .noTableName => "No table name configured"
  | .noRegion => "No region configured"
  | .batchLimit given => s!"batch_write_limit must be between 1 and {maxBatch}, got {given}"
  | .noCapacity => "table capacity must be positive"
  | .sleepOrder => "min_retry_sleep must not exceed max_retry_sleep"
  | .unreadable file fault => s!"failed to read config {file}: {fault.message}"
  | .malformed => "config parse error"
  | .capacity read write => s!"capacity must be positive, got read: {read}, write: {write}"
  | .parameter name value fault => s!"{name} = {Text.quoted value}: {fault.message}"
  | .markerWithoutVersion key => s!"version marker {key.text} has no schema_version attribute"
  | .other text => text

/-- What was done, to what, in which table of which region. -/
structure Site where
  operation : String
  target : String
  table : String
  region : String
deriving DecidableEq

/-- The classes of store errors. -/
inductive ErrorKind
  | notFound
  | incompatibleVersion
  | tableUnavailable
  | throttled
  | interrupted
  | backendFault
  | invalidArgument
deriving DecidableEq, Repr

/-- Why an operation of the store failed. -/
inductive StoreError
  /-- the table does not exist and may not be made -/
  | tableNotFound (table region reason : String)
  /-- the table has no version marker -/
  | noVersionMarker (table : String)
  /-- the version marker holds another version -/
  | incompatibleVersion (table : String) (expected actual : Int64)
  /-- the table cannot be used as it is -/
  | tableUnavailable (table region reason : String)
  /-- a request failed and was not tried again -/
  | backend (site : Site) (source : ServiceError)
  /-- a request failed as often as it could be tried -/
  | retriesExhausted (site : Site) (attempts : UInt32) (throttled : Bool) (reason : String)
  /-- a wait ended because the store was closed -/
  | interrupted (site : Site)
  /-- the caller asked for something that cannot be -/
  | invalidArgument (cause : Misuse)
deriving DecidableEq

namespace StoreError

/-- The class of an error. -/
def kind : StoreError → ErrorKind
  | .tableNotFound .. | .noVersionMarker _ => .notFound
  | .incompatibleVersion .. => .incompatibleVersion
  | .tableUnavailable .. => .tableUnavailable
  | .backend _ (.resourceNotFound _) => .notFound
  | .backend _ (.throttled _) => .throttled
  | .backend .. => .backendFault
  | .retriesExhausted _ _ throttled _ => if throttled then .throttled else .backendFault
  | .interrupted _ => .interrupted
  | .invalidArgument _ => .invalidArgument

/-- The wording of an error. -/
def message : StoreError → String
  | .tableNotFound table region reason =>
    s!"table '{table}' does not exist in region {region}: {reason}"
  | .noVersionMarker table => s!"Metadata table lacks version marker. Table: {table}"
  | .incompatibleVersion table expected actual =>
    "Database table is from an incompatible metadata store version." ++
      s!" Table {table} Expected version {expected} actual {actual}"
  | .tableUnavailable table region reason =>
    s!"table '{table}' in region {region} is unavailable: {reason}"
  | .backend site source =>
    s!"{site.operation} on {site.target} (table '{site.table}', region {site.region}): " ++
      source.message
  | .retriesExhausted site attempts _ reason =>
    s!"max retries exceeded ({attempts}) for {site.operation} on {site.target} " ++
      s!"(table '{site.table}', region {site.region}): {reason}"
  | .interrupted site =>
    s!"{site.operation} on {site.target} interrupted (table '{site.table}', region {site.region})"
  | .invalidArgument cause => s!"invalid argument: {cause.message}"

end StoreError

end TableTree
