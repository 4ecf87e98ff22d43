import TableTree.Proofs.Tree.Kinds

/-!
# Tombstones

Tombstones take the place of items, and everything else stays. A tree stays a tree as long as
nothing live lies below one of them.

Results:

* `Items.Buried`: tombstones of one time at some paths, and nothing else changed.
* `Items.buried_storeAll`: storing tombstones buries their paths.
* `Items.IsTree.of_buried`: what is buried of a tree, with all that is live below it, leaves a tree.
-/

namespace TableTree.Items

variable {items items' : Items} {now : Int64} {doomed : Path → Prop}

/-- The items `items'` are `items` with tombstones of the time `now` at the paths in `doomed`. -/
structure Buried (items items' : Items) (doomed : Path → Prop) (now : Int64) : Prop where
  tombstone : ∀ p, doomed p → items'.at? p = (Entry.tombstone p now).item?
  other : ∀ key, (∀ p, doomed p → p.key? ≠ some key) → items'.item? key = items.item? key

theorem Buried.at?_other (h : items.Buried items' doomed now) {p : Path} (hp : ¬ doomed p) :
    items'.at? p = items.at? p := by
  apply at?_congr
  intro key hk
  apply h.other
  intro q hq hkq
  rw [Path.key?_injective hk hkq] at hp
  exact hp hq

/-- A buried path is dead, and any other is what it was. -/
theorem Buried.kind?_of_doomed (h : items.Buried items' doomed now) {p : Path} (hp : doomed p) :
    items'.kind? p = none := by
  rw [kind?, h.tombstone p hp]
  cases hk : p.key? with
  | none => simp [Entry.item?, hk]
  | some key =>
    rw [Entry.item?_of_key? (e := .tombstone p now) hk, Option.bind_some, Entry.liveKind?_itemAt]
    rfl

theorem Buried.kind?_other (h : items.Buried items' doomed now) {p : Path} (hp : ¬ doomed p) :
    items'.kind? p = items.kind? p := by
  rw [kind?, h.at?_other hp, kind?]

/-- Exactly the live paths that are not buried are live afterwards. -/
theorem Buried.isLive_iff (h : items.Buried items' doomed now) {p : Path} :
    items'.IsLive p ↔ items.IsLive p ∧ ¬ doomed p := by
  by_cases hp : doomed p
  · simp [IsLive, h.kind?_of_doomed hp, hp]
  · simp [IsLive, h.kind?_other hp, hp]

theorem Buried.congr (h : items.Buried items' doomed now) {doomed' : Path → Prop}
    (hd : ∀ p, doomed p ↔ doomed' p) : items.Buried items' doomed' now where
  tombstone p hp := h.tombstone p ((hd p).2 hp)
  other key hkey := h.other key fun p hp => hkey p ((hd p).1 hp)

/-- Where nothing is buried, nothing changes. -/
theorem Buried.eq_of_forall_not (h : items.Buried items' doomed now) (hnone : ∀ p, ¬ doomed p) :
    items' = items :=
  ext_item? fun key => h.other key fun p hp => absurd hp (hnone p)

/-- Burying the same paths at one time always leaves the same. -/
theorem Buried.eq (h : items.Buried items' doomed now) {items'' : Items}
    (h' : items.Buried items'' doomed now) : items'' = items' := by
  refine ext_item? fun key => ?_
  by_cases hkey : ∃ p, doomed p ∧ p.key? = some key
  · obtain ⟨p, hp, hk⟩ := hkey
    rw [← at?_of_key? _ hk, ← at?_of_key? _ hk, h.tombstone p hp, h'.tombstone p hp]
  · have hother : ∀ p, doomed p → p.key? ≠ some key := fun p hp hk => hkey ⟨p, hp, hk⟩
    rw [h.other key hother, h'.other key hother]

/-- Storing tombstones buries their paths. -/
theorem buried_storeAll {ts : List Entry} (hts : ∀ t ∈ ts, t = .tombstone t.path now) :
    items.Buried (items.storeAll ts) (fun p => ∃ t ∈ ts, t.path = p) now where
  tombstone p hp := by
    induction ts generalizing items with
    | nil => simp at hp
    | cons t ts ih =>
      have hrest := fun u hu => hts u (List.mem_cons_of_mem t hu)
      rw [storeAll_cons]
      by_cases hlater : ∃ u ∈ ts, u.path = p
      · exact ih hrest hlater
      · have hlast : ∀ u ∈ ts, u.path ≠ p := fun u hu hup => hlater ⟨u, hu, hup⟩
        have ht : t.path = p := by
          obtain ⟨u, hu, hup⟩ := hp
          rcases List.mem_cons.1 hu with rfl | hu
          · exact hup
          · exact absurd hup (hlast u hu)
        rw [at?_storeAll_of_not_mem hlast, at?_store, if_pos ht, hts t List.mem_cons_self, ht]
  other key hkey := item?_storeAll_of_not_mem fun t ht => hkey t.path ⟨t, ht, rfl⟩

theorem exists_mem_map_tombstone {ps : List Path} {p : Path} :
    (∃ t ∈ ps.map (Entry.tombstone · now), t.path = p) ↔ p ∈ ps := by
  constructor
  · rintro ⟨t, ht, rfl⟩
    obtain ⟨q, hq, rfl⟩ := List.mem_map.1 ht
    exact hq
  · exact fun hp => ⟨.tombstone p now, List.mem_map.2 ⟨p, hp, rfl⟩, rfl⟩

/-- Storing the tombstones of some paths buries them. -/
theorem buried_storeAll_map (ps : List Path) :
    items.Buried (items.storeAll (ps.map (Entry.tombstone · now))) (· ∈ ps) now := by
  refine (buried_storeAll fun t ht => ?_).congr fun p => exists_mem_map_tombstone
  obtain ⟨p, -, rfl⟩ := List.mem_map.1 ht
  rfl

/-- Of a list with deeper paths first, what is deeper than one of the entries at the front is there as
well. -/
theorem mem_take_of_depth_lt {ts : List Entry}
    (hsorted : ts.Pairwise fun t u => u.path.depth ≤ t.path.depth) {k : Nat} {t u : Entry}
    (ht : t ∈ ts.take k) (hu : u ∈ ts) (hlt : t.path.depth < u.path.depth) : u ∈ ts.take k := by
  rw [← List.take_append_drop k ts] at hu hsorted
  refine (List.mem_append.1 hu).resolve_right ?_
  intro hdrop
  have := (List.pairwise_append.1 hsorted).2.2 t ht u hdrop
  omega

/-- A tree stays a tree when some of its paths are buried with all that is live below them. -/
theorem IsTree.of_buried (htree : items.IsTree) (h : items.Buried items' doomed now)
    (hdown : ∀ p, items.IsLive p → ∀ q ∈ p.ancestors, doomed q → doomed p) : items'.IsTree := by
  intro p hp q hq
  obtain ⟨hlive, hdoomed⟩ := h.isLive_iff.1 hp
  rw [h.kind?_other fun hqd => hdoomed (hdown p hlive q hq hqd)]
  exact htree p hlive q hq

end TableTree.Items
