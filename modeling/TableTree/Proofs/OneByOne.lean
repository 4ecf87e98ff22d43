import TableTree.Proofs.PutEffect
import TableTree.Proofs.Repetition

/-!
# One thing after the other

A move, and the storing of a listing, send one list of writes that has each path once. They leave
what their parts leave, done one after the other.

Results:

* `Store.withLimit`: a store that cuts its writes in other parts.
* `Stage.items?_run_deletes`: deletions of single paths.
* `Stage.move_one_by_one`: a move stores entries, and then deletes path after path.
* `Stage.putListing_one_by_one`: the storing of a listing stores a directory, and then item after
  item.
-/

namespace TableTree

open Operation

/-- The store with another limit on the size of its batches. -/
def Store.withLimit (s : Store) (limit : Nat) : Store :=
  ⟨{ s.settings with batchWriteLimit := limit }⟩

/-! ## Moves -/

theorem Call.entries_delete (owner : String) (items : Items) (now : Int64) (path : Path) :
    (Call.delete path).entries owner items now =
      ([path].filter fun p => !p.isRoot).map (Entry.tombstone · now) := by
  cases h : path.isRoot <;> simp [entries, h]

namespace Stage

variable {s : Store} {stage : Stage} {items : Items}

/-- Deletions of single paths, all at one time, store their tombstones one after the other. -/
theorem items?_run_deletes (hitems : stage.items? s = some items) {now : Int64}
    {deleting : List Step} {order : List Path}
    (hcalls : deleting.map Step.call = order.map Call.delete) (hnow : ∀ x ∈ deleting, x.now = now)
    (hok : Succeeds s stage deleting) :
    (run s stage deleting).items? s =
      some (items.storeAll ((order.filter fun p => !p.isRoot).map (Entry.tombstone · now))) := by
  induction deleting generalizing stage items order with
  | nil =>
    obtain rfl : order = [] := List.map_eq_nil_iff.1 hcalls.symm
    exact hitems
  | cons x deleting ih =>
    cases order with
    | nil => cases hcalls
    | cons path order =>
      obtain ⟨hcall, hcalls⟩ := List.cons.inj hcalls
      have hafter := items?_after hitems hok.1
      rw [hcall, Call.applyAll_writes_of_removals rfl, Call.entries_delete,
        hnow x List.mem_cons_self] at hafter
      rw [run_cons, ih hafter hcalls (fun y hy => hnow y (List.mem_cons_of_mem x hy)) hok.2,
        ← Items.storeAll_append, ← List.map_append, ← List.filter_append, List.singleton_append]

variable {deletes : List Path} {creates : List Entry}

/-- Storing entries in a list, and then deleting some paths at one time, buries these. -/
theorem buried_run_deletes (hitems : stage.items? s = some items) {now : Int64} {storing : Step}
    {deleting : List Step} (hstoring : storing.call = .putAll creates)
    (hcalls : deleting.map Step.call = deletes.map Call.delete) (hnow : ∀ x ∈ deleting, x.now = now)
    (hok : Succeeds s stage (storing :: deleting)) :
    ∃ left, (run s stage (storing :: deleting)).items? s = some left ∧
      (items.storeAll (Entry.withAncestors creates s.owner)).Buried left
        (fun p => p ∈ deletes ∧ p.isRoot = false) now := by
  have hafter := items?_after hitems hok.1
  rw [hstoring, Call.applyAll_writes_of_removals rfl] at hafter
  refine ⟨_, items?_run_deletes hafter hcalls hnow hok.2, ?_⟩
  refine (Items.buried_storeAll_map _).congr fun p => ?_
  rw [List.mem_filter, Bool.not_eq_true']

/-- A move of the same entries and paths buries the same. -/
theorem buried_after_move (hitems : stage.items? s = some items) {moving : Step}
    (hcall : moving.call = .move (some deletes) (some creates))
    (hok : (perform s stage moving).outcome = .ok ()) :
    ∃ moved, (after s stage moving).items? s = some moved ∧
      (items.storeAll (Entry.withAncestors creates s.owner)).Buried moved
        (fun p => p ∈ deletes ∧ p.isRoot = false) moving.now := by
  have hafter := items?_after hitems hok
  rw [hcall, Call.applyAll_writes_of_removals rfl] at hafter
  exact ⟨_, hafter, Call.buried_move (some deletes) (some creates)⟩

/-- **A move is a sequence.** Let a move succeed on any table, with whatever creations and deletions,
roots, paths twice and paths in both among them. Its items are those that are left by storing the
creations in a list and then deleting path after path at the time of the move, in any order and some
of them again, when that succeeds. The order of the deletions, their repetition and the size of the
batches do not matter, and every path that is deleted ends as a tombstone, created or not. -/
theorem move_one_by_one (s : Store) (stage : Stage) (items : Items) (deletes : List Path)
    (creates : List Entry) (moving : Step) (hitems : stage.items? s = some items)
    (hcall : moving.call = .move (some deletes) (some creates))
    (hok : (perform s stage moving).outcome = .ok ()) :
    ∃ moved, (after s stage moving).items? s = some moved ∧
      (∀ (limit : Nat) (order : List Path) (storing : Step) (deleting : List Step),
        (∀ p, p ∈ order ↔ p ∈ deletes) → storing.call = .putAll creates →
        deleting.map Step.call = order.map Call.delete → (∀ x ∈ deleting, x.now = moving.now) →
        Succeeds (s.withLimit limit) stage (storing :: deleting) →
        (run (s.withLimit limit) stage (storing :: deleting)).items? s = some moved) ∧
      (∀ (limit : Nat) (order : List Path) (again : Step),
        (∀ p, p ∈ order ↔ p ∈ deletes) → again.call = .move (some order) (some creates) →
        again.now = moving.now → (perform (s.withLimit limit) stage again).outcome = .ok () →
        (after (s.withLimit limit) stage again).items? s = some moved) ∧
      ∀ p ∈ deletes, p.isRoot = false →
        moved.at? p = (Entry.tombstone p moving.now).item? ∧ ¬ moved.IsLive p := by
  obtain ⟨moved, hmoved, hburied⟩ := buried_after_move hitems hcall hok
  refine ⟨moved, hmoved, ?_, ?_, ?_⟩
  · intro limit order storing deleting horder hstoring hcalls hnow hok'
    obtain ⟨left, hleft, hburied'⟩ :=
      buried_run_deletes (s := s.withLimit limit) hitems hstoring hcalls hnow hok'
    have hsame : left = moved :=
      hburied.eq (hburied'.congr fun p => and_congr_left' (horder p))
    exact hleft.trans (congrArg some hsame)
  · intro limit order again horder hagain hnow hok'
    obtain ⟨left, hleft, hburied'⟩ :=
      buried_after_move (s := s.withLimit limit) hitems hagain hok'
    rw [hnow] at hburied'
    have hsame : left = moved :=
      hburied.eq (hburied'.congr fun p => and_congr_left' (horder p))
    exact hleft.trans (congrArg some hsame)
  · intro p hp hr
    exact ⟨hburied.tombstone p ⟨hp, hr⟩, fun hlive => (hburied.isLive_iff.1 hlive).2 ⟨hp, hr⟩⟩

end Stage

namespace Sample

/-- A move that creates a file and a directory, and deletes the file twice, its directory and a root.
The first batch fails, and a write of the second one is left out. -/
def tangledMove : Step where
  call := .move (some [file, directory, .root directory.bucket, file])
    (some [.file file 1 2 3 "o", .directory innerDirectory "o"])
  now := 9
  faults := 1
  leftovers := .ofList [(1, 1)]

/-- What the move creates is stored, the first request being throttled. -/
def storeCreated : Step where
  call := .putAll [.file file 1 2 3 "o", .directory innerDirectory "o"]
  now := 8
  throttles := 1

/-- What the move deletes is deleted path after path. -/
def deleteEach : List Step :=
  [.root directory.bucket, directory, file].map fun p => { call := .delete p, now := 9 }

/-- The move leaves what its parts leave, which are written item by item. -/
theorem move_one_by_one_tangled :
    ∃ items moved, stage.items? store = some items ∧
    (Stage.perform store stage tangledMove).outcome = .ok () ∧
    Stage.Succeeds (store.withLimit 1) stage (storeCreated :: deleteEach) ∧
    (Stage.after store stage tangledMove).items? store = some moved ∧
    (Stage.run (store.withLimit 1) stage (storeCreated :: deleteEach)).items? store = some moved ∧
    moved.at? file = (Entry.tombstone file 9).item? ∧ moved.IsLive innerDirectory := by
  obtain ⟨createdAt, hitems⟩ := isMade_stage.items?_eq
  have hok : (Stage.perform store stage tangledMove).outcome = .ok () := by decide +kernel
  have hseq : Stage.Succeeds (store.withLimit 1) stage (storeCreated :: deleteEach) := by
    decide +kernel
  obtain ⟨moved, hmoved, hsame, -, hburied⟩ :=
    Stage.move_one_by_one store stage _ _ _ tangledMove hitems rfl hok
  have hrun : ((Stage.after store stage tangledMove).items? store).any fun items =>
      items.IsLive innerDirectory := by decide +kernel
  rw [hmoved] at hrun
  refine ⟨_, moved, hitems, hok, hseq, hmoved, ?_, (hburied file (by decide) rfl).1,
    of_decide_eq_true hrun⟩
  refine hsame 1 [.root directory.bucket, directory, file] storeCreated deleteEach (fun p => ?_) rfl
    rfl ?_ hseq
  · simp only [List.mem_cons, List.not_mem_nil, or_false]
    grind
  · simp [deleteEach, tangledMove]

end Sample

/-! ## Listings -/

namespace Items

variable {items : Items} {owner : String}

/-- With its missing ancestors, an entry leaves what any other with the same path and item does. -/
theorem storeAll_withMissing_congr {d e : Entry} (hpath : d.path = e.path)
    (hitem : d.item? = e.item?) :
    items.storeAll (items.withMissing owner d) = items.storeAll (items.withMissing owner e) := by
  have hstore (items : Items) : items.store d = items.store e := by rw [store, hitem, store]
  rw [withMissing, withMissing, hpath, storeAll_append, storeAll_append]
  cases e.path.isRoot with
  | true => rfl
  | false => exact hstore _

/-- A listing is stored as its directory, with the missing ancestors, and then entry after entry. -/
theorem storeAll_putListing (l : Listing) (now : Int64) (owner' : String) :
    items.storeAll ((Call.putListing l).entries owner items now) =
      (items.storeAll (items.withMissing owner (.directory l.path owner'))).storeAll
        (l.entries.filter fun e => !e.path.isRoot) := by
  rw [Call.entries, storeAll_keepLast, storeAll_append]
  congr 1
  exact storeAll_withMissing_congr (d := l.directory owner) rfl rfl

end Items

namespace Stage

variable {s : Store} {stage : Stage} {items : Items}

/-- Where a store can bind with what is planned for a step, it stores what it is told to at the time
of the step when nothing is planned. -/
theorem outcome_perform_undisturbed (hcheck : s.settings.check = .ok ())
    (hitems : stage.items? s = some items) {x : Step}
    (hprepare : (s.prepare.run Service.backend stage.memory (stage.hostOf x)).outcome = .ok ())
    {c : Call} (hc : c.Stores) :
    (perform s stage { call := c, now := x.now, closesAt := x.closesAt }).outcome = .ok () := by
  let calm : Step := { call := c, now := x.now, closesAt := x.closesAt }
  have hundisturbed : (stage.hostOf x).Undisturbed (stage.hostOf calm) :=
    (stage.hostOf calm).undisturbed_planned x.throttles x.faults x.leftovers
  have hmirrors := s.transparent_prepare stage.memory stage.memory _ _ (.refl _) hundisturbed ()
    hprepare
  have hitems' : (stage.hostOf calm).state.items? s.table = some items := hitems
  have hcalm := hmirrors.outcome_eq.trans hprepare
  refine Call.outcome_perform_of_prepared hcheck rfl hitems' hcalm ?_ hc
  rw [Service.walkBound, hitems', Option.elim_some]
  omega

/-- **The storing of a listing is a sequence.** Let a listing be stored with success in any table,
whatever its entries are: deleted, at roots, several of one path, or of the directory itself or of an
ancestor of it. What it leaves is what is left by storing the directory, and then the item of each
entry that is no root, one after the other in their order. Storing the directory does succeed when
nothing goes wrong. -/
theorem putListing_one_by_one (s : Store) (stage : Stage) (items : Items) (l : Listing)
    (listing : Step) (hitems : stage.items? s = some items)
    (hcall : listing.call = .putListing l) (hok : (perform s stage listing).outcome = .ok ()) :
    ∃ listed children, (after s stage listing).items? s = some listed ∧
      Entry.items (l.entries.filter fun e => !e.path.isRoot) = .ok children ∧
      (∀ (owner : String) (storing : Step), storing.call = .put (.directory l.path owner) →
        (perform s stage storing).outcome = .ok () →
        ∃ stored, (after s stage storing).items? s = some stored ∧
          listed = children.foldl (fun known item => known.apply (.put item)) stored) ∧
      (s.settings.check = .ok () → ∀ owner, (perform s stage
        { call := .put (.directory l.path owner), now := listing.now,
          closesAt := listing.closesAt }).outcome = .ok ()) := by
  have hlisted := items?_after hitems hok
  rw [hcall, Call.applyAll_writes_of_removals rfl] at hlisted
  have hchildren : ∀ e ∈ l.entries.filter fun e => !e.path.isRoot, e.path.isRoot = false :=
    fun e he => by simpa using (List.mem_filter.1 he).2
  refine ⟨_, _, hlisted, Entry.items_eq_ok hchildren, ?_, ?_⟩
  · intro owner storing hstoring hok'
    have hstored := items?_after hitems hok'
    rw [hstoring, Call.applyAll_writes_of_removals rfl] at hstored
    refine ⟨_, hstored, ?_⟩
    rw [Items.storeAll_putListing l listing.now owner, ← Items.applyAll_writes, Items.applyAll,
      Entry.writes, List.foldl_map]
    rfl
  · intro hcheck owner
    rw [perform, hcall] at hok
    exact outcome_perform_undisturbed hcheck hitems
      (Store.exists_run_prepare_of_bound_bind hok).1 trivial

end Stage

namespace Sample

/-- A listing of the inner directory with a file twice, a root, a tombstone for the outer directory
and a file in the place of the inner one. -/
def tangledListing : Listing where
  path := innerDirectory
  entries := [.file innerFile 1 2 3 "o", .tombstone directory 4,
    .directory (.root directory.bucket) "o", .file innerDirectory 5 6 7 "o",
    .file innerFile 8 9 10 "o"]
  authoritative := false

/-- The listing is stored, the first request being throttled, and a write being left out. -/
def putTangledListing : Step where
  call := .putListing tangledListing
  now := 6
  throttles := 1
  leftovers := .ofList [(1, 1)]

/-- The listing is stored in batches of two as it is one after the other. -/
theorem putListing_one_by_one_tangled :
    ∃ items listed stored children, stage.items? (store.withLimit 2) = some items ∧
    (Stage.perform (store.withLimit 2) stage putTangledListing).outcome = .ok () ∧
    (Stage.after (store.withLimit 2) stage putTangledListing).items? store = some listed ∧
    (Stage.perform (store.withLimit 2) stage
      { call := .put (.directory innerDirectory "me"), now := 6 }).outcome = .ok () ∧
    (Stage.after (store.withLimit 2) stage
      { call := .put (.directory innerDirectory "me"), now := 6 }).items? store = some stored ∧
    Entry.items (tangledListing.entries.filter fun e => !e.path.isRoot) = .ok children ∧
    listed = children.foldl (fun known item => known.apply (.put item)) stored ∧
    listed.kind? directory = none ∧ listed.kind? innerDirectory = some .file ∧
    listed.at? innerFile = (Entry.file innerFile 8 9 10 "o").item? := by
  obtain ⟨createdAt, hitems⟩ := isMade_stage.items?_eq
  have hok : (Stage.perform (store.withLimit 2) stage putTangledListing).outcome = .ok () := by
    decide +kernel
  obtain ⟨listed, children, hlisted, hchildren, hsame, hsucceeds⟩ :=
    Stage.putListing_one_by_one (store.withLimit 2) stage _ tangledListing putTangledListing hitems
      rfl hok
  have hput := hsucceeds (by decide +kernel) "me"
  obtain ⟨stored, hstored, heq⟩ := hsame "me" _ rfl hput
  have hrun : ((Stage.after (store.withLimit 2) stage putTangledListing).items?
      (store.withLimit 2)).any fun items => items.kind? directory = none ∧
        items.kind? innerDirectory = some .file ∧
        items.at? innerFile = (Entry.file innerFile 8 9 10 "o").item? := by decide +kernel
  rw [hlisted] at hrun
  obtain ⟨hdirectory, hinner, hfile⟩ := of_decide_eq_true hrun
  exact ⟨_, listed, stored, children, hitems, hok, hlisted, hput, hstored, hchildren, heq,
    hdirectory, hinner, hfile⟩

end Sample

end TableTree
