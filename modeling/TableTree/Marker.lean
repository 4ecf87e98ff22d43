import TableTree.Failure
/-!
# The version marker

A table says which layout its items have in one item of its own, the version marker. Its key is the
key of no path, for its partition does not start with a slash.

Results:

* `Marker.item`, `Marker.version`, `Marker.createdAt?`: writing and reading the marker.
* `Marker.check`: a table may be used when its marker holds `Marker.current`.
* `Marker.check_of_version`, `Marker.version_of_check`: what a check says about the version.
* `Marker.path?_key`: the marker's key has no path.
-/

namespace TableTree.Marker

/-- The layout version that this library writes and understands. -/
def current : Int64 := 100

/-- The attribute that holds the version. -/
def versionName : String := "schema_version"

/-- The attribute that holds the time of creation. -/
def createdAtName : String := "created_at"

/-- The key of the marker. -/
def key : Key := ⟨"../VERSION", "../VERSION"⟩

/-- The marker of a version and a time of creation. -/
def item (version createdAt : Int64) : Item :=
  ((Item.bare key).setLong versionName version).setLong createdAtName createdAt

/-- The version that a marker holds. -/
def version (marker : Item) : Except StoreError Int64 :=
  match marker.long? versionName with
  | some v => .ok v
  | none => .error (.invalidArgument (.markerWithoutVersion marker.key))

/-- The time of creation that a marker holds. -/
def createdAt? (marker : Item) : Option Int64 := marker.long? createdAtName

/-- The version of the marker of a table, if the marker is there and holds the current one. -/
def check (table : String) (marker : Option Item) : Except StoreError Int64 :=
  match marker with
  | none => .error (.noVersionMarker table)
  | some marker => do
    let v ← version marker
    if v = current then .ok v else .error (.incompatibleVersion table current v)

/-- The version that a marker holds decides whether its table may be used. -/
theorem check_of_version {table : String} {marker : Item} {v : Int64} (h : version marker = .ok v) :
    check table (some marker) =
      if v = current then .ok v else .error (.incompatibleVersion table current v) := by
  show (version marker >>= fun v => _) = _
  rw [h]
  rfl

theorem version_of_check {table : String} {marker : Item} {v : Int64}
    (h : check table (some marker) = .ok v) : version marker = .ok current ∧ v = current := by
  cases hv : version marker with
  | error e =>
    change (version marker >>= fun v => _) = _ at h
    rw [hv] at h
    cases h
  | ok v' =>
    rw [check_of_version hv] at h
    split at h
    · rename_i hcurrent
      cases h
      exact ⟨congrArg _ hcurrent, hcurrent⟩
    · cases h

theorem path?_key : key.path? = none := by decide

end TableTree.Marker
