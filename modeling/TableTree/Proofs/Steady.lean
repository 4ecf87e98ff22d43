import TableTree.Proofs.Readings

/-!
# Reading a table that stays as it is

A store that is bound reads its table as it is as long as no request fails and nobody else writes,
and whatever it reads leaves it so. So one reading after another, and a whole walk, tell of the same
items.

Results:

* `Items.hinted`, `Items.emptiness`: an entry that is read with a look for live children.
* `Store.Sees`: a bound store whose table stays as it is.
* `Store.Sees.exists_run_get`, `Store.Sees.exists_run_listChildren`: what it reads and lists.
* `Store.Sees.outcome_collect?`: a whole walk.
-/

namespace TableTree

open Operation

namespace Items

variable {items : Items} {owner : String}

/-- What a look for items marked as not deleted tells of the children of a path. -/
def emptiness (items : Items) (p : Path) : Emptiness :=
  if (select (items.all.filter fun item => item.key.parent = p.partition) (some .live)).isEmpty then
    .unknown
  else .occupied

/-- An entry that is read; a directory that is no root has a look for live children with it if
`hint` asks for one. -/
def hinted (items : Items) (hint : Bool) (e : Entry) : Entry :=
  if hint && e.isDir && !e.path.isRoot then { e with emptiness := items.emptiness e.path } else e

/-- What reading a path gives. -/
def read? (items : Items) (owner : String) (hint : Bool) (p : Path) : Option Entry :=
  (items.lookup? owner p).map (items.hinted hint)

@[simp] theorem read?_false (items : Items) (owner : String) (p : Path) :
    items.read? owner false p = items.lookup? owner p := by
  rw [read?]
  cases items.lookup? owner p <;> rfl

theorem read?_of_isRoot {owner : String} {hint : Bool} {p : Path} (h : p.isRoot = true) :
    items.read? owner hint p = some (.directory p owner) := by
  have hroot : (Entry.directory p owner).path.isRoot = true := h
  rw [read?, lookup?, if_pos h, Option.map_some, hinted, hroot]
  simp

/-- The live children in the listing of a path. -/
theorem live_listing? (p : Path) :
    ((items.listing? owner p).elim [] fun l => l.entries.filter Entry.isLive) =
      items.children owner p := by
  show _ = (items.listed owner p).filter Entry.isLive
  unfold listing?
  dsimp only
  split
  · rename_i hempty
    rw [List.isEmpty_iff.1 hempty]
    cases items.lookup? owner p <;> rfl
  · rfl

end Items

namespace Store

/-- A bound store whose table holds the given items, on a service where no request fails and nobody
else writes. -/
structure Sees (s : Store) (items : Items) (m : Memory) (h : Host Service) : Prop where
  isBound : isBound m = true
  isQuiet : h.state.IsQuiet
  items?_eq : h.state.items? s.table = some items

namespace Sees

variable {s : Store} {items : Items} {m : Memory} {h : Host Service}

/-- A request that is only counted leaves everything as it was. -/
theorem counted (hs : s.Sees items m h) (r : Request) :
    s.Sees items m { h with state := h.state.count r } where
  isBound := hs.isBound
  isQuiet := hs.isQuiet.of_plan_eq (h.state.plan_count r)
  items?_eq := ((h.state.sameTables_count r).items? s.table).trans hs.items?_eq

/-! ## Reading and listing -/

theorem exists_run_readEntry (hs : s.Sees items m h) {p : Path} {key : Key}
    (hkey : p.key? = some key) (hint : Bool) :
    ∃ k, (s.readEntry p key hint).run Service.backend h = (.ok (items.read? s.owner hint p), k) ∧
      s.Sees items m k := by
  have hroot : p.isRoot = false := by
    rw [← Bool.not_eq_true, ← Path.key?_eq_none_iff, hkey]
    nofun
  have hget : Service.backend.answer (.getItem s.table key) h.state =
      (.ok (items.at? p), h.state.count (.getItem s.table key)) := by
    rw [Items.at?_of_key? items hkey]
    exact hs.isQuiet.answer_getItem hs.items?_eq key
  have hs₁ := hs.counted (.getItem s.table key)
  have hlookup : items.lookup? s.owner p = (items.at? p).bind (Entry.ofItem? · s.owner) := by
    rw [Items.lookup?, hroot, if_neg Bool.false_ne_true]
  unfold readEntry
  rw [Program.run_bind, Program.run_ask, hget]
  dsimp only
  rw [Items.read?, ← hlookup]
  cases he : items.lookup? s.owner p with
  | none => exact ⟨_, rfl, hs₁⟩
  | some e =>
    obtain rfl := Items.path_of_lookup? he
    rw [Option.map_some, Items.hinted, hroot, Bool.not_false, Bool.and_true]
    dsimp only
    split
    · -- the second request looks for live children
      have hquery := hs₁.isQuiet.neverFails.answer_query hs₁.items?_eq e.path.partition (some .live)
      rw [Program.run_bind, Program.run_ask,
        show Service.backend.answer (.query s.table e.path.partition (some .live)) _ = _ from hquery]
      exact ⟨_, rfl, hs₁.counted (.query s.table e.path.partition (some .live))⟩
    · exact ⟨_, rfl, hs₁⟩

/-- Reading a path gives what the items tell of it. -/
theorem exists_run_get (hs : s.Sees items m h) (p : Path) (hint : Bool) :
    ∃ k, (s.get p hint).run Service.backend m h = ⟨.ok (items.read? s.owner hint p), m, k⟩ ∧
      s.Sees items m k := by
  unfold get
  rw [run_bound_bind_of_isBound hs.isBound]
  cases hr : p.isRoot with
  | true =>
    rw [Items.read?_of_isRoot hr]
    exact ⟨h, rfl, hs⟩
  | false =>
    obtain ⟨key, hkey⟩ := Path.exists_key?_of_isRoot hr
    obtain ⟨k, hrun, hk⟩ := hs.exists_run_readEntry hkey hint
    simp only [Bool.false_eq_true, if_false]
    rw [Path.key_of_key? hkey]
    refine ⟨k, ?_, hk⟩
    show (s.client.once "get" p.text (s.readEntry p key hint)).run Service.backend m h = _
    unfold Client.once
    rw [run_bind, run_perform, hrun]
    rfl

theorem outcome_get (hs : s.Sees items m h) (p : Path) (hint : Bool) :
    ((s.get p hint).run Service.backend m h).outcome = .ok (items.read? s.owner hint p) := by
  obtain ⟨k, hrun, -⟩ := hs.exists_run_get p hint
  rw [hrun]

/-- Listing a path gives what the items tell of its children. -/
theorem exists_run_listChildren (hs : s.Sees items m h) (p : Path) :
    ∃ k, (s.listChildren p).run Service.backend m h = ⟨.ok (items.listing? s.owner p), m, k⟩ ∧
      s.Sees items m k := by
  have hs₁ := hs.counted (.query s.table p.partition none)
  have hquery : (s.client.once "listChildren" p.text (.ask (.query s.table p.partition none))).run
      Service.backend m h =
        ⟨.ok (items.all.filter fun item => item.key.parent = p.partition), m,
          { h with state := h.state.count (.query s.table p.partition none) }⟩ := by
    unfold Client.once
    rw [run_bind_of_ok (run_perform_ask
      (hs.isQuiet.neverFails.answer_query hs.items?_eq p.partition none)), Items.select_none]
    rfl
  unfold listChildren
  rw [run_bound_bind_of_isBound hs.isBound, run_bind_of_ok hquery]
  unfold Items.listing? Items.listed
  dsimp only
  split
  · obtain ⟨k, hrun, hk⟩ := hs₁.exists_run_get p false
    refine ⟨k, ?_, hk⟩
    rw [run_bind_of_ok hrun, Items.read?_false]
    rfl
  · exact ⟨_, rfl, hs₁⟩

theorem outcome_listChildren (hs : s.Sees items m h) (p : Path) :
    ((s.listChildren p).run Service.backend m h).outcome = .ok (items.listing? s.owner p) := by
  obtain ⟨k, hrun, -⟩ := hs.exists_run_listChildren p
  rw [hrun]

/-! ## Walks -/

/-- A visit to an entry lists the live children that the items have. -/
theorem exists_run_listing (hs : s.Sees items m h) (e : Entry) :
    ∃ listing k, Operation.run Service.backend
        (if e.isDir then s.listChildren e.path else pure none) m h = ⟨.ok listing, m, k⟩ ∧
      (listing.elim [] fun l => l.entries.filter Entry.isLive) = items.expand s.owner e ∧
      s.Sees items m k := by
  cases hdir : e.isDir with
  | true =>
    obtain ⟨k, hrun, hk⟩ := hs.exists_run_listChildren e.path
    refine ⟨items.listing? s.owner e.path, k, hrun, ?_, hk⟩
    rw [Items.expand, if_pos hdir, Items.live_listing?]
  | false => exact ⟨none, h, rfl, (if_neg (by simp [hdir])).symm, hs⟩

/-- A walk visits what a walk through the items visits. -/
theorem exists_run_collect? (hs : s.Sees items m h) (visits : Nat) (w : Walk) :
    ∃ k, (w.collect? s visits).run Service.backend m h =
        ⟨.ok (items.walk s.owner visits w.queue), m, k⟩ ∧ s.Sees items m k := by
  induction visits generalizing w h with
  | zero =>
    obtain ⟨_ | ⟨e, queue⟩⟩ := w
    · exact ⟨h, rfl, hs⟩
    · exact ⟨h, rfl, hs⟩
  | succ visits ih =>
    obtain ⟨_ | ⟨e, queue⟩⟩ := w
    · exact ⟨h, rfl, hs⟩
    · obtain ⟨listing, k, hrun, hlisting, hk⟩ := hs.exists_run_listing e
      obtain ⟨k', hrest, hk'⟩ := ih hk ⟨queue ++ items.expand s.owner e⟩
      refine ⟨k', ?_, hk'⟩
      rw [Walk.collect?_cons, run_bind_of_ok hrun, hlisting, run_bind_of_ok hrest]
      rfl

theorem outcome_collect? (hs : s.Sees items m h) (visits : Nat) (w : Walk) :
    ((w.collect? s visits).run Service.backend m h).outcome =
      .ok (items.walk s.owner visits w.queue) := by
  obtain ⟨k, hrun, -⟩ := hs.exists_run_collect? visits w
  rw [hrun]

end Sees

end Store

/-! ## A sample -/

namespace Sample

/-- A service whose table holds the given items. -/
def hosting (items : Items) : Host Service :=
  { host with state := host.state.setTable store.table ⟨"ACTIVE", {}, ⟨5, 5⟩, .never, items⟩ }

theorem sees_hosting (items : Items) : store.Sees items boundMemory (hosting items) :=
  ⟨rfl, ⟨rfl, rfl, rfl⟩, by rw [hosting, Service.items?_setTable, if_pos rfl]⟩

end Sample

end TableTree
