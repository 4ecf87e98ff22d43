import TableTree.Backoff
import TableTree.Failure
import TableTree.Table
import TableTree.Text.Blank
/-!
# Settings

Results:

* `Settings`: the settings of a store with their defaults.
* `Settings.check`: the first fault of settings, if there is one; `Settings.check_eq_ok_iff` says
  which settings have none.
-/

namespace TableTree

/-- The settings of a store. -/
structure Settings where
  tableName : String := ""
  /-- the region of the service -/
  region : String := ""
  /-- the owner of all entries read -/
  owner : String := ""
  /-- whether a missing table is made -/
  createTable : Bool := false
  readCapacity : Int64 := 500
  writeCapacity : Int64 := 100
  maxRetries : UInt32 := 9
  minRetrySleep : Duration := .ofMillis 100
  maxRetrySleep : Duration := .ofSeconds 60
  /-- the largest number of writes in one batch -/
  batchWriteLimit : Nat := maxBatch
  /-- the pause before each batch of a pruning -/
  backgroundSleep : Duration := .ofMillis 25
  /-- the pause between two looks at a table's status -/
  tablePollInterval : Duration := .ofSeconds 2
  /-- the number of looks after which waiting for a table ends -/
  tableWaitMaxPolls : UInt32 := 150
  /-- the number of throttled requests from which on no warning is given -/
  throttleLogLimit : UInt64 := 100
deriving DecidableEq

namespace Settings

/-- Whether a text holds blanks alone. -/
def isMissing (s : String) : Bool := (Text.trim s.toList).isEmpty

/-- Refuses settings that no store can work with, naming the first fault. -/
def check (s : Settings) : Except Misuse Unit :=
  if isMissing s.tableName then .error .noTableName
  else if isMissing s.region then .error .noRegion
  else if s.batchWriteLimit = 0 ∨ maxBatch < s.batchWriteLimit then
    .error (.batchLimit s.batchWriteLimit)
  else if s.readCapacity ≤ 0 ∨ s.writeCapacity ≤ 0 then .error .noCapacity
  else if s.maxRetrySleep < s.minRetrySleep then .error .sleepOrder
  else .ok ()

/-- The policy for retries. -/
def policy (s : Settings) : Policy := ⟨s.maxRetries, s.minRetrySleep, s.maxRetrySleep⟩

/-- The capacity of a table that is made. -/
def capacity (s : Settings) : Capacity := ⟨s.readCapacity, s.writeCapacity⟩

theorem check_eq_ok_iff {s : Settings} :
    s.check = .ok () ↔
      isMissing s.tableName = false ∧ isMissing s.region = false ∧
      s.batchWriteLimit ≠ 0 ∧ s.batchWriteLimit ≤ maxBatch ∧
      0 < s.readCapacity ∧ 0 < s.writeCapacity ∧ s.minRetrySleep ≤ s.maxRetrySleep := by
  unfold check
  split
  · simp_all
  split
  · simp_all
  split
  · rename_i h
    simp only [reduceCtorEq, false_iff]
    intro ⟨_, _, h0, h1, _⟩
    omega
  split
  · rename_i h
    simp only [reduceCtorEq, false_iff]
    intro ⟨_, _, _, _, h0, h1, _⟩
    rw [Int64.lt_iff_toInt_lt] at h0 h1
    rw [Int64.le_iff_toInt_le, Int64.le_iff_toInt_le] at h
    omega
  split
  · rename_i h
    simp only [reduceCtorEq, false_iff]
    intro ⟨_, _, _, _, _, _, h0⟩
    rw [Duration.lt_iff] at h
    rw [Duration.le_iff] at h0
    omega
  · rename_i h1 h2 h3 h4 h5
    simp only [true_iff]
    rw [Int64.le_iff_toInt_le, Int64.le_iff_toInt_le] at h4
    rw [Duration.lt_iff] at h5
    refine ⟨by simpa using h1, by simpa using h2, by omega, by omega, ?_, ?_, ?_⟩
    · rw [Int64.lt_iff_toInt_lt]; omega
    · rw [Int64.lt_iff_toInt_lt]; omega
    · rw [Duration.le_iff]; omega

end Settings

end TableTree
