import TableTree.Proofs.Life

/-!
# What the items of a table stand for

A table that a store has made holds the version marker and, for some paths, the items of entries under
the keys of those paths. Every write of a store stores the item of an entry, or removes the item of a
path, and the key of the marker is the key of no path. So whatever a store is asked for, and whatever
part of its writes is done, the table holds nothing else.

Results:

* `Items.Encodes`: the items that stand for entries, with the marker.
* `Write.IsProper`, `Items.Encodes.apply`: the writes that keep this up.
* `Call.isProper_of_mem_writes`: a call has no others.
* `Stage.IsMade.encodes_live`: the items along the life of a store that has made its table.
-/

namespace TableTree

/-- The items hold the marker of a table that was made at the time `createdAt`, and every other item
is the one of an entry, under the key of its path, which is read back as the path. -/
structure Items.Encodes (items : Items) (createdAt : Int64) : Prop where
  marker : items.item? Marker.key = some (Marker.item Marker.current createdAt)
  entry : ∀ key item, key ≠ Marker.key → items.item? key = some item →
    ∃ e : Entry, e.item = .ok item ∧ e.path.key = .ok key ∧ key.path? = some e.path

/-- A write that stores the item of an entry, or removes the item of a path. -/
def Write.IsProper : Write → Prop
  | .put item => ∃ e : Entry, e.item? = some item
  | .delete key => ∃ p, key.path? = some p

/-- A proper write is to the key of a path. -/
theorem Write.IsProper.exists_path? {w : Write} (hw : w.IsProper) : ∃ p, w.key.path? = some p := by
  cases w with
  | put item =>
    obtain ⟨e, he⟩ := hw
    exact ⟨e.path, Path.path?_of_key? (Entry.key?_of_item? he)⟩
  | delete key => exact hw

/-- No proper write is to the marker. -/
theorem Write.IsProper.key_ne {w : Write} (hw : w.IsProper) : w.key ≠ Marker.key := by
  obtain ⟨p, hp⟩ := hw.exists_path?
  intro hkey
  rw [hkey, Marker.path?_key] at hp
  cases hp

namespace Items

variable {items : Items} {createdAt : Int64}

theorem encodes_madeItems (createdAt : Int64) :
    (Settings.madeItems createdAt).Encodes createdAt where
  marker := by
    rw [Settings.madeItems, item?_apply]
    exact if_pos rfl
  entry key item hne hitem := by
    have hkey : (Write.put (Marker.item Marker.current createdAt)).key ≠ key := Ne.symm hne
    rw [Settings.madeItems, item?_apply, if_neg hkey] at hitem
    simp [item?] at hitem

/-- A proper write leaves items that stand for entries. -/
theorem Encodes.apply (h : items.Encodes createdAt) {w : Write} (hw : w.IsProper) :
    (items.apply w).Encodes createdAt where
  marker := by
    rw [item?_apply, if_neg hw.key_ne]
    exact h.marker
  entry key item hne hitem := by
    rw [item?_apply] at hitem
    split at hitem
    · rename_i hkey
      subst hkey
      cases w with
      | delete key => cases hitem
      | put stored =>
        obtain rfl : stored = item := Option.some.inj hitem
        obtain ⟨e, he⟩ := hw
        have hkey : e.path.key? = some stored.key := Entry.key?_of_item? he
        have hstored : stored = e.itemAt stored.key :=
          Option.some.inj (he.symm.trans (Entry.item?_of_key? hkey))
        have hitem : e.item = .ok stored := by rw [Entry.item_of_key? hkey, ← hstored]
        exact ⟨e, hitem, Path.key_of_key? hkey, Path.path?_of_key? hkey⟩
    · exact h.entry key item hne hitem

/-- Proper writes leave items that stand for entries. -/
theorem Encodes.applyAll (h : items.Encodes createdAt) {ws : List Write}
    (hws : ∀ w ∈ ws, w.IsProper) : (items.applyAll ws).Encodes createdAt := by
  induction ws generalizing items with
  | nil => exact h
  | cons w ws ih =>
    rw [List.forall_mem_cons] at hws
    exact ih (h.apply hws.1) hws.2

end Items

/-! ## The writes of a store -/

/-- The writes that store entries are proper. -/
theorem Entry.isProper_of_mem_writes {es : List Entry} {w : Write} (h : w ∈ Entry.writes es) :
    w.IsProper := by
  obtain ⟨item, hitem, rfl⟩ := List.mem_map.1 h
  obtain ⟨e, -, he⟩ := List.mem_filterMap.1 hitem
  exact ⟨e, he⟩

/-- Whatever a call removes is the item of a path. -/
theorem Call.exists_path?_of_mem_removals {items : Items} {c : Call} {key : Key}
    (h : key ∈ c.removals items) : ∃ p, key.path? = some p := by
  cases c with
  | forget path => exact ⟨path, Path.path?_of_key? (Option.mem_toList.1 h)⟩
  | prune before => exact Option.isSome_iff_exists.1 (List.mem_filter.1 h).2
  | _ => cases h

/-- Every write of a call is proper. -/
theorem Call.isProper_of_mem_writes {owner : String} {items : Items} {now : Int64} {c : Call}
    {w : Write} (h : w ∈ c.writes owner items now) : w.IsProper := by
  rcases List.mem_append.1 h with h | h
  · obtain ⟨key, hkey, rfl⟩ := List.mem_map.1 h
    exact exists_path?_of_mem_removals hkey
  · exact Entry.isProper_of_mem_writes h

/-- Every write of an action is proper. -/
theorem Action.isProper_of_mem_writes {owner : String} {items : Items} {now : Int64} {a : Action}
    {w : Write} (h : w ∈ a.writes owner items now) : w.IsProper := by
  cases a with
  | use u =>
    rw [writes_use] at h
    cases hc : u.call? with
    | none =>
      rw [hc] at h
      cases h
    | some c =>
      rw [hc] at h
      exact Call.isProper_of_mem_writes h
  | _ => cases h

/-- **What the items stand for.** After a store has made its table, and then was asked for anything but
to destroy it, whatever was throttled, failed or left out, the table holds the marker that the store
has written and otherwise items of entries, each under the key of its path. -/
theorem Stage.IsMade.encodes_live {s : Store} {stage : Stage} (h : stage.IsMade s) :
    ∃ createdAt, ∀ events : List Event, (∀ x ∈ events, x.action ≠ .use .destroy) →
      ∃ items, (live s stage events).items? s = some items ∧ items.Encodes createdAt := by
  obtain ⟨createdAt, hmade⟩ := h.items?_eq
  refine ⟨createdAt, fun events hevents => ?_⟩
  refine holds_live (I := (·.Encodes createdAt)) hevents hmade (Items.encodes_madeItems createdAt) ?_
  intro x _ items hitems k
  exact hitems.applyAll fun w hw => Action.isProper_of_mem_writes (List.mem_of_mem_take hw)

namespace Sample

/-- Entries are stored in part, one of them at a root, a directory is deleted while the store is being
closed, what is old is pruned, and the capacity is changed. -/
def events : List Event :=
  [{ action := .use (.putAll [.file file 1 2 3 "o", .directory (Path.root directory.bucket) "o"]),
     now := 6, leftovers := .ofList [(0, 1)], closeAfter := some 0 },
    { action := .use (.deleteSubtree directory), now := 7, throttles := 2, closeAfter := some 9 },
    { action := .use (.prune 7), now := 8 },
    { action := .updateCapacity (some 7) none, now := 9, faults := 1 }]

/-- The table holds the marker and the items of entries then. -/
theorem encodes_live_events :
    stage.IsMade store ∧ ∃ createdAt items, (Stage.live store stage events).items? store = some items ∧
      items.Encodes createdAt := by
  obtain ⟨createdAt, h⟩ := Stage.IsMade.encodes_live isMade_stage
  obtain ⟨items, hitems, hencodes⟩ := h events (by simp [events])
  exact ⟨isMade_stage, createdAt, items, hitems, hencodes⟩

end Sample

end TableTree
