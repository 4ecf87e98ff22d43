import TableTree.Proofs.Granted
import TableTree.Proofs.Text.Bytes
import TableTree.Proofs.Walk.Collect

/-!
# Reading and listing

An entry is read through the key of its path, and the children of a path are listed through the
partition that their keys share. Whatever else the table holds, both tell the same: a key in the
partition of a path is the key of a child or has no path, so the listing of a path has what reading
each path directly below it gives.

Results:

* `Items.listed`, `Items.mem_listed_iff`: the children that the items of a table tell of.
* `Items.pairwise_listed`: their names are in order.
* `Store.outcome_get_of_isBound`, `Store.outcome_listChildren_of_isBound`: what a store reads when
  nothing fails.
* `Store.get_agrees_with_listChildren`: reading and listing agree.
-/

namespace TableTree

open Operation

/-! ## What the items tell -/

namespace Items

variable {items : Items} {owner : String} {p : Path}

/-- The children of a path that the items tell of, tombstones included. -/
def listed (items : Items) (owner : String) (p : Path) : List Entry :=
  (items.all.filter fun item => item.key.parent = p.partition).filterMap (Entry.ofItem? · owner)

/-- The listing of a path that the items give: none if they tell neither of a child nor of the
path. -/
def listing? (items : Items) (owner : String) (p : Path) : Option Listing :=
  let listing : Listing := ⟨p, items.listed owner p, false⟩
  if (items.listed owner p).isEmpty then (items.lookup? owner p).map fun _ => listing
  else some listing

/-- What is read of a path is an entry of the path. -/
theorem path_of_lookup? {e : Entry} (h : items.lookup? owner p = some e) : e.path = p := by
  unfold lookup? at h
  split at h
  · cases h
    rfl
  · obtain ⟨item, hat, hof⟩ := Option.bind_eq_some_iff.1 h
    obtain ⟨hkey, -⟩ := key?_of_at? hat
    have hpath := (Entry.liveKind?_of_ofItem? hof).1
    exact Option.some.inj (hpath.symm.trans (Path.path?_of_key? hkey))

/-- An entry is listed among the children of a path if it is directly below it and is what is read of
its own path. -/
theorem mem_listed_iff {e : Entry} :
    e ∈ items.listed owner p ↔
      e.path.parent? = some p ∧ items.lookup? owner e.path = some e := by
  constructor
  · intro h
    obtain ⟨item, hitem, hof⟩ := List.mem_filterMap.1 h
    obtain ⟨hall, hparent⟩ := List.mem_filter.1 hitem
    obtain ⟨s, hpath, hkey⟩ := path_of_partition (of_decide_eq_true hparent) hof
    have hat : items.at? (p.below s) = some item := by
      rw [at?_of_key? items (Path.key?_below p s), ← hkey]
      exact mem_all.1 hall
    rw [hpath]
    refine ⟨Path.parent?_below p s, ?_⟩
    rw [lookup?, Path.isRoot_below, if_neg Bool.false_ne_true, hat]
    exact hof
  · rintro ⟨hparent, h⟩
    obtain ⟨s, hpath⟩ := Path.parent?_eq_some_iff.1 hparent
    rw [hpath, lookup?, Path.isRoot_below, if_neg Bool.false_ne_true] at h
    obtain ⟨item, hat, hof⟩ := Option.bind_eq_some_iff.1 h
    obtain ⟨hkey, hitem⟩ := key?_of_at? hat
    rw [Path.key?_below, Option.some.injEq] at hkey
    refine List.mem_filterMap.2 ⟨item, List.mem_filter.2 ⟨mem_all.2 hitem, ?_⟩, hof⟩
    simp [← hkey]

/-- The children of a path are in the order of their names, and no name is repeated. -/
theorem pairwise_listed (p : Path) :
    (items.listed owner p).Pairwise fun d e => d.path.name < e.path.name := by
  have hpart := items.pairwise_all.filter fun item => item.key.parent = p.partition
  refine List.pairwise_filterMap.2 (hpart.imp_of_mem ?_)
  intro x y hx hy hlt d hd e he
  obtain ⟨s, hpx, hkx⟩ := path_of_partition (of_decide_eq_true (List.mem_filter.1 hx).2) hd
  obtain ⟨s', hpy, hky⟩ := path_of_partition (of_decide_eq_true (List.mem_filter.1 hy).2) he
  rw [hpx, hpy, Path.name_below, Path.name_below]
  rw [hkx, hky] at hlt
  -- the keys share their partition, so their order is the one of the names
  have hlex : (compare p.partition p.partition).then (compare s.val s'.val) = .lt := hlt
  have hself : compare p.partition p.partition = .eq := Std.ReflCmp.compare_self
  rw [hself] at hlex
  exact compareOfLessAndEq_eq_lt.1 hlex

/-- There is no listing if nothing is read of the path and of the paths directly below it. -/
theorem listing?_eq_none_iff :
    items.listing? owner p = none ↔ items.lookup? owner p = none ∧
      ∀ q : Path, q.parent? = some p → items.lookup? owner q = none := by
  have hempty : items.listed owner p = [] ↔
      ∀ q : Path, q.parent? = some p → items.lookup? owner q = none := by
    rw [List.eq_nil_iff_forall_not_mem]
    constructor
    · intro h q hq
      cases he : items.lookup? owner q with
      | none => rfl
      | some e =>
        obtain rfl := path_of_lookup? he
        exact absurd (mem_listed_iff.2 ⟨hq, he⟩) (h e)
    · intro h e he
      obtain ⟨hparent, hlookup⟩ := mem_listed_iff.1 he
      rw [h e.path hparent] at hlookup
      cases hlookup
  rw [← hempty, listing?]
  cases items.listed owner p <;> simp

theorem listing?_eq_some {l : Listing} (h : items.listing? owner p = some l) :
    l = ⟨p, items.listed owner p, false⟩ := by
  unfold listing? at h
  dsimp only at h
  split at h
  · obtain ⟨-, -, rfl⟩ := Option.map_eq_some_iff.1 h
    rfl
  · exact (Option.some.inj h).symm

end Items

/-! ## What a store reads -/

/-- The outcome of an operation that succeeds, put to use. -/
theorem Operation.outcome_bind_pure {σ α β : Type} {b : Backend σ} {x : Operation α} {m : Memory}
    {h : Host σ} {a : α} (hx : (x.run b m h).outcome = .ok a) (f : α → β) :
    ((x >>= fun a => pure (f a)).run b m h).outcome = .ok (f a) := by
  rw [run_bind]
  rcases hrun : x.run b m h with ⟨r, m₁, h₁⟩
  rw [hrun] at hx
  obtain rfl : r = .ok a := hx
  rfl

namespace Service

variable {s : Service} {t : String} {items : Items}

theorem NeverFails.count (hs : s.NeverFails) (r : Request) : (s.count r).NeverFails := by
  refine ⟨?_, ?_⟩
  · rw [plan_count]
    exact hs.throttles
  · rw [plan_count]
    exact hs.faults

theorem NeverFails.answer_getItem (hs : s.NeverFails) (hitems : s.items? t = some items)
    (key : Key) : (s.answer (.getItem t key)).1 = .ok (items.item? key) := by
  have hitems' : (s.count (.getItem t key)).items? t = some items := hitems
  show (unlessFault (s.count (.getItem t key)) _).1 = _
  rw [(hs.count _).unlessFault_eq, getItem, readItems, hitems']

theorem NeverFails.answer_query (hs : s.NeverFails) (hitems : s.items? t = some items)
    (parent : String) (filter : Option Filter) : s.answer (.query t parent filter) =
      (.ok (Items.select (items.all.filter fun item => item.key.parent = parent) filter),
        s.count (.query t parent filter)) := by
  have hitems' : (s.count (.query t parent filter)).items? t = some items := hitems
  show unlessFault (s.count (.query t parent filter)) _ = _
  rw [(hs.count _).unlessFault_eq, readItems, hitems']

end Service

namespace Store

variable {s : Store} {m : Memory} {h : Host Service} {items : Items}

/-- A store that is bound reads what the items tell, if nothing fails. -/
theorem outcome_get_of_isBound (hm : isBound m = true) (hstate : h.state.NeverFails)
    (hitems : h.state.items? s.table = some items) (p : Path) :
    ((s.get p false).run Service.backend m h).outcome = .ok (items.lookup? s.owner p) := by
  unfold get
  rw [run_bound_bind_of_isBound hm, Items.lookup?]
  cases hr : p.isRoot with
  | true => rfl
  | false =>
    obtain ⟨key, hkey⟩ := Path.exists_key?_of_isRoot hr
    have hread : ((s.readEntry p key false).run Service.backend h).1 =
        .ok ((items.at? p).bind (Entry.ofItem? · s.owner)) := by
      unfold readEntry
      rw [Program.run_bind, Program.run_ask]
      rw [show (Service.backend.answer (.getItem s.table key) h.state).1 = _ from
        hstate.answer_getItem hitems key, Items.at?_of_key? items hkey]
      dsimp only
      split
      · rename_i hnone
        rw [hnone]
        rfl
      · rename_i entry hentry
        rw [hentry]
        rfl
    simp only [Bool.false_eq_true, if_false]
    rw [Path.key_of_key? hkey]
    show ((s.client.once "get" p.text (s.readEntry p key false)).run Service.backend m h).outcome = _
    unfold Client.once
    rw [run_bind, run_perform, hread]
    rfl

/-- A store that is bound lists what the items tell, if nothing fails. -/
theorem outcome_listChildren_of_isBound (hm : isBound m = true) (hstate : h.state.NeverFails)
    (hitems : h.state.items? s.table = some items) (p : Path) :
    ((s.listChildren p).run Service.backend m h).outcome = .ok (items.listing? s.owner p) := by
  let k : Host Service := { h with state := h.state.count (.query s.table p.partition none) }
  have hquery : (s.client.once "listChildren" p.text (.ask (.query s.table p.partition none))).run
      Service.backend m h =
        ⟨.ok (items.all.filter fun item => item.key.parent = p.partition), m, k⟩ := by
    unfold Client.once
    rw [run_bind_of_ok (run_perform_ask (hstate.answer_query hitems p.partition none)),
      Items.select_none]
    rfl
  have hk : k.state.NeverFails := hstate.count (.query s.table p.partition none)
  have hget : ((s.get p false).run Service.backend m k).outcome = .ok (items.lookup? s.owner p) :=
    outcome_get_of_isBound hm hk hitems p
  unfold listChildren
  rw [run_bound_bind_of_isBound hm, run_bind_of_ok hquery]
  unfold Items.listing? Items.listed
  dsimp only
  split
  · exact outcome_bind_pure hget _
  · rfl

/-- **Reading and listing agree.** Suppose that a store can bind to its table, and that nothing fails
once it is bound. Whatever the table holds, every path can be read and listed. There is no listing of
a path exactly if nothing is read of it nor of any path directly below it. A listing is one of its
path; its entries lie directly below the path, with names in the order of their bytes, and they are
what is read of the paths directly below it. -/
theorem get_agrees_with_listChildren
    (hprepare : (s.prepare.run Service.backend m h).outcome = .ok ())
    (hitems : (s.prepare.run Service.backend m h).host.state.items? s.table = some items)
    (hstate : (s.prepare.run Service.backend m h).host.state.NeverFails) (p : Path) :
    let read (q : Path) := ((s.get q false).run Service.backend m h).outcome
    ∃ listing, ((s.listChildren p).run Service.backend m h).outcome = .ok listing ∧
      (∀ q, ∃ e, read q = .ok e) ∧
      (listing = none ↔ read p = .ok none ∧ ∀ q : Path, q.parent? = some p → read q = .ok none) ∧
      ∀ l, listing = some l → l.path = p ∧ (∀ e ∈ l.entries, e.path.parent? = some p) ∧
        l.names.Pairwise (fun a b => Text.bytes a < Text.bytes b) ∧
        ∀ q : Path, q.parent? = some p → ∀ e,
          e ∈ l.entries ∧ e.path = q ↔ read q = .ok (some e) := by
  have hbound := isBound_of_prepare hprepare
  have hread (q : Path) : ((s.get q false).run Service.backend m h).outcome =
      .ok (items.lookup? s.owner q) := by
    unfold get
    rw [run_bound_bind hprepare]
    exact outcome_get_of_isBound hbound hstate hitems q
  have hlist : ((s.listChildren p).run Service.backend m h).outcome =
      .ok (items.listing? s.owner p) := by
    unfold listChildren
    rw [run_bound_bind hprepare]
    exact outcome_listChildren_of_isBound hbound hstate hitems p
  simp only [hread, Except.ok.injEq]
  refine ⟨items.listing? s.owner p, hlist, fun q => ⟨_, rfl⟩, Items.listing?_eq_none_iff, ?_⟩
  intro l hl
  obtain rfl := Items.listing?_eq_some hl
  refine ⟨rfl, fun e he => (Items.mem_listed_iff.1 he).1, ?_, ?_⟩
  · rw [Listing.names, List.pairwise_map]
    exact (Items.pairwise_listed p).imp Text.bytes_lt_bytes
  · intro q hq e
    constructor
    · rintro ⟨he, rfl⟩
      exact (Items.mem_listed_iff.1 he).2
    · intro he
      obtain rfl := Items.path_of_lookup? he
      exact ⟨Items.mem_listed_iff.2 ⟨hq, he⟩, rfl⟩

end Store

/-! ## A sample -/

namespace Sample

/-- The root of a bucket. -/
def bucketRoot : Path := Path.root directory.bucket

/-- The items of a table with two children of the root, a file and a tombstone, and with items under
keys that name no child of it: a name with a slash, a partition that ends in one, and none that starts
with one. -/
def oddItems : Items :=
  Items.applyAll ∅ [.put ((Item.bare ⟨"/b", "é"⟩).setLong Attribute.length 7),
    .put ((Item.bare ⟨"/b", "z"⟩).setBool Attribute.isDeleted true), .put (Item.bare ⟨"/b", "a/b"⟩),
    .put (Item.bare ⟨"/b/", "x"⟩), .put (Item.bare ⟨"b", "q"⟩)]

/-- What a store remembers that is bound to the table. -/
def boundMemory : Memory := { binding := some ⟨true, Marker.current, some 5⟩ }

/-- A service with that table. -/
def oddHost : Host Service :=
  { host with state := host.state.setTable store.table ⟨"ACTIVE", {}, ⟨5, 5⟩, .never, oddItems⟩ }

/-- The root has a listing of the two children then, in the order of the bytes of their names. -/
theorem get_agrees_with_listChildren_odd :
    (store.prepare.run Service.backend boundMemory oddHost).outcome = .ok () ∧
      (store.prepare.run Service.backend boundMemory oddHost).host.state.items? store.table =
        some oddItems ∧
      ∃ l, ((store.listChildren bucketRoot).run Service.backend boundMemory oddHost).outcome =
          .ok (some l) ∧ l.names = ["z", "é"] ∧
        l.names.Pairwise (fun a b => Text.bytes a < Text.bytes b) := by
  have hprepare : store.prepare.run Service.backend boundMemory oddHost =
      ⟨.ok (), boundMemory, oddHost⟩ := rfl
  have hitems : oddHost.state.items? store.table = some oddItems := by
    rw [oddHost, Service.items?_setTable, if_pos rfl]
  have hnames : (((store.listChildren bucketRoot).run Service.backend boundMemory
      oddHost).outcome.toOption.join.map Listing.names) = some ["z", "é"] := by
    decide +kernel
  obtain ⟨listing, hlisting, -, -, hentries⟩ := Store.get_agrees_with_listChildren
    (s := store) (m := boundMemory) (h := oddHost) (by rw [hprepare]) (by rw [hprepare, hitems])
    (by rw [hprepare]; exact ⟨rfl, rfl⟩) bucketRoot
  rw [hlisting] at hnames
  obtain ⟨l, rfl, hl⟩ := Option.map_eq_some_iff.1 hnames
  rw [hprepare]
  exact ⟨rfl, hitems, l, hlisting, hl, (hentries l rfl).2.2.1⟩

end Sample

end TableTree
