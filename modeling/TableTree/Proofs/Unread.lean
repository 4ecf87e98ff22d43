import Mathlib.Data.List.Sort
import TableTree.Proofs.Composed
import TableTree.Proofs.OneByOne
import TableTree.Proofs.Representation
import TableTree.Proofs.Tree.Completion

/-!
# Ancestors that are looked for, and ancestors that are not

A store that is given an entry looks for its ancestors, up to the first live one, and stores
stand-ins for the others. A store that is given a list of entries stores stand-ins for all ancestors
and looks for none. In a tree, whatever is stored without a look is there already.

Results:

* `Entry.withAncestors_singleton`: an entry with all its ancestors.
* `Items.storeAll_withAncestors_singleton`: in a tree the nearest ancestors are enough.
* `Request.Reads`: the requests that read what is at a path.
* `Stage.put_eq_putAll`: an entry is stored in a list as it is alone.
-/

namespace TableTree

open Operation

/-! ## What is stored -/

namespace Entry

variable {owner : String}

/-- An entry with stand-ins for all its ancestors is in strict order. -/
theorem pairwise_compareByDepth_withStandIns (e : Entry) :
    (e.withStandIns owner e.path.ancestors).Pairwise fun c d =>
      Path.compareByDepth c.path d.path = .lt := by
  have hbefore {p q : Path} (h : q ∈ p.ancestors) : Path.compareByDepth q p = .lt :=
    Path.compareByDepth_eq_lt_iff.2 (.inl (Path.depth_lt_of_mem_ancestors h))
  refine List.pairwise_append.2 ⟨?_, ?_, fun c hc d hd => ?_⟩
  · rw [List.pairwise_reverse, List.pairwise_map]
    exact e.path.pairwise_ancestors.imp hbefore
  · split
    · exact .nil
    · exact List.pairwise_singleton ..
  · obtain ⟨q, hq, rfl⟩ := List.mem_map.1 (List.mem_reverse.1 hc)
    split at hd
    · cases hd
    · rw [List.mem_singleton.1 hd]
      exact hbefore hq

theorem mem_withStandIns_of_mem_withAncestors {d e : Entry} (hd : d ∈ withAncestors [e] owner) :
    d ∈ e.withStandIns owner e.path.ancestors := by
  obtain ⟨hr, hde | ⟨hstand, c, hc, hm⟩⟩ := of_mem_withAncestors hd
  · obtain rfl := List.mem_singleton.1 hde
    exact List.mem_append_right _ (by simp [hr])
  · obtain rfl := List.mem_singleton.1 hc
    rw [hstand]
    exact List.mem_append_left _ (List.mem_reverse.2 (List.mem_map.2 ⟨d.path, hm, rfl⟩))

theorem mem_withAncestors_singleton_iff {d e : Entry} :
    d ∈ withAncestors [e] owner ↔ d ∈ e.withStandIns owner e.path.ancestors := by
  refine ⟨mem_withStandIns_of_mem_withAncestors, fun hd => ?_⟩
  have hspans : e.path.isRoot = false ∧ (d.path = e.path ∨ d.path ∈ e.path.ancestors) := by
    rcases exists_mem_withStandIns.1 ⟨d, hd, rfl⟩ with hm | ⟨hr, hp⟩
    · exact ⟨Path.isRoot_of_mem_ancestors_of hm, .inr hm⟩
    · exact ⟨hr, .inl hp⟩
  obtain ⟨c, hc, hcd⟩ : ∃ c ∈ withAncestors [e] owner, c.path = d.path :=
    exists_mem_withAncestors.2 ⟨e, List.mem_singleton_self e, hspans⟩
  -- the entry of that path is `d`, as there is one entry for each path with the stand-ins
  have hpaths : (e.withStandIns owner e.path.ancestors).Pairwise fun c d => c.path ≠ d.path :=
    pairwise_path_of_compareByDepth (pairwise_compareByDepth_withStandIns e)
  have hlast := last?_of_pairwise hpaths (mem_withStandIns_of_mem_withAncestors hc)
  rw [hcd, last?_of_pairwise hpaths hd] at hlast
  exact Option.some.inj hlast ▸ hc

/-- A list of one entry is completed by stand-ins for all its ancestors. -/
theorem withAncestors_singleton (e : Entry) :
    withAncestors [e] owner = e.withStandIns owner e.path.ancestors := by
  let before (c d : Entry) : Prop := Path.compareByDepth c.path d.path = .lt
  have hirrefl : Std.Irrefl before := ⟨fun d hd => by
    have hself : Path.compareByDepth d.path d.path = .eq := Std.ReflCmp.compare_self
    cases hself.symm.trans hd⟩
  have hantisymm : Std.Antisymm before :=
    ⟨fun c d hc hd => absurd hd (Std.OrientedCmp.not_lt_of_lt hc)⟩
  have hsorted : (withAncestors [e] owner).Pairwise before :=
    pairwise_compareByDepth_withAncestors [e]
  exact hsorted.eq_of_mem_iff (pairwise_compareByDepth_withStandIns e)
    fun _ => mem_withAncestors_singleton_iff

/-- Live directories leave the same item, whoever owns them and whatever is known about them. -/
theorem itemAt_of_directory {e : Entry} (hlive : e.isLive = true) (hdir : e.kind = .directory)
    (p : Path) (owner : String) (key : Key) : e.itemAt key = (directory p owner).itemAt key := by
  have hdeleted : e.isDeleted = false := by simpa [isLive] using hlive
  have hisDir : e.isDir = true := by
    unfold kind at hdir
    split at hdir
    · assumption
    · cases hdir
  rw [itemAt, itemAt, hisDir, hdeleted]
  rfl

end Entry

namespace Items

variable {items : Items} {owner : String}

/-- Storing what is there already changes nothing. -/
theorem storeAll_of_forall_at? {es : List Entry} (h : ∀ e ∈ es, items.at? e.path = e.item?) :
    items.storeAll es = items := by
  induction es with
  | nil => rfl
  | cons e es ih =>
    have hstore : items.store e = items := by
      refine ext_item? fun key => ?_
      rw [item?_store]
      split
      · rename_i hkey
        rw [← h e List.mem_cons_self, at?_of_key? items hkey]
      · rfl
    rw [storeAll_cons, hstore]
    exact ih fun d hd => h d (List.mem_cons_of_mem e hd)

variable (hitem : ∀ p item, items.at? p = some item → ∃ d : Entry, d.item? = some item)
include hitem

/-- Where the items of paths are those of entries, a live directory has the item of any other. -/
theorem at?_of_directory {p : Path} (hp : items.kind? p = some .directory) (owner : String) :
    items.at? p = (Entry.directory p owner).item? := by
  obtain ⟨item, hat, hkind⟩ := Option.bind_eq_some_iff.1 hp
  obtain ⟨d, hd⟩ := hitem p item hat
  have hkey : p.key? = some item.key := (key?_of_at? hat).1
  have hstored : item = d.itemAt item.key :=
    Option.some.inj (hd.symm.trans (Entry.item?_of_key? (Entry.key?_of_item? hd)))
  rw [hstored, Entry.liveKind?_itemAt] at hkind
  obtain ⟨hlive, hdir⟩ := Entry.isLive_of_liveKind? hkind
  calc items.at? p = some (d.itemAt item.key) := hat.trans (congrArg some hstored)
    _ = some ((Entry.directory p owner).itemAt item.key) :=
      congrArg some (Entry.itemAt_of_directory hlive hdir p owner item.key)
    _ = (Entry.directory p owner).item? := (Entry.item?_of_key? hkey).symm

/-- In a tree, the ancestors from the first live one on are there already, so storing an entry with
all its ancestors leaves what storing it with the others does. -/
theorem storeAll_withAncestors_singleton (htree : items.IsTree) {e : Entry}
    (hfile : ∀ q ∈ e.path.ancestors, items.kind? q ≠ some .file) (owner : String) :
    items.storeAll (Entry.withAncestors [e] owner) =
      items.storeAll (items.withMissing owner e) := by
  obtain ⟨far, hancestors, hfar⟩ := items.exists_ancestors_eq e.path
  have hdirectory : ∀ q ∈ far, items.kind? q = some .directory := by
    cases far with
    | nil => nofun
    | cons r far =>
      have hlive : items.IsLive r := hfar r rfl
      have hr : r ∈ e.path.ancestors := hancestors ▸ List.mem_append_right _ List.mem_cons_self
      have habove := e.path.pairwise_ancestors
      rw [hancestors, List.pairwise_append, List.pairwise_cons] at habove
      intro q hq
      rcases List.mem_cons.1 hq with rfl | hq
      · obtain ⟨_ | _, hkind⟩ := kind?_of_isLive hlive
        · exact absurd hkind (hfile q hr)
        · exact hkind
      · exact htree r hlive q (habove.2.1.1 q hq)
  have hthere : items.storeAll (far.map (Entry.standIn · owner)).reverse = items := by
    refine storeAll_of_forall_at? fun d hd => ?_
    obtain ⟨q, hq, rfl⟩ := List.mem_map.1 (List.mem_reverse.1 hd)
    exact at?_of_directory hitem (hdirectory q hq) owner
  rw [Entry.withAncestors_singleton, Entry.withStandIns, hancestors, List.map_append,
    List.reverse_append, List.append_assoc, storeAll_append, hthere, withMissing]

end Items

/-! ## What is read -/

/-- Whether a request reads the item of a path, or may read it among others. -/
def Request.Reads : Request → Path → Prop
  | .getItem _ key, p => key.path? = some p
  | .query .., _ | .scan .., _ => True
  | _, _ => False

theorem Request.IsAside.not_reads {r : Request} (h : r.IsAside) (p : Path) : ¬ r.Reads p := by
  cases r with
  | getItem name key =>
    obtain rfl : key = Marker.key := h
    rw [Reads, Marker.path?_key]
    nofun
  | query name parent filter => exact h.elim
  | scan name filter => exact h.elim
  | _ => exact id

theorem Request.not_reads_of_isBatch {r : Request} (h : r.isBatch = true) (p : Path) :
    ¬ r.Reads p := by
  cases r with
  | batchWrite name writes => exact id
  | _ => cases h

/-- Whether `q` is an ancestor of `p` with no live one between them. -/
def Items.Sought (items : Items) (p q : Path) : Prop :=
  q ∈ p.ancestors ∧ ∀ r ∈ p.ancestors, q ∈ r.ancestors → ¬ items.IsLive r

/-- Whether nothing is read for the sake of `p` but ancestors with no live one between. -/
def Exchange.Seeks (items : Items) (p : Path) (x : Exchange) : Prop :=
  ∀ q, x.1.Reads q → items.Sought p q

/-- An ancestor is sought if none that comes before it is live. -/
theorem Items.sought_of_ancestors_eq {items : Items} {p q : Path} {near far : List Path}
    (h : p.ancestors = near ++ q :: far) (hnear : ∀ r ∈ near, ¬ items.IsLive r) :
    items.Sought p q := by
  have hsorted := p.pairwise_ancestors
  rw [h, List.pairwise_append, List.pairwise_cons] at hsorted
  refine ⟨h ▸ List.mem_append_right _ List.mem_cons_self, fun r hr hqr => ?_⟩
  have hdepth := Path.depth_lt_of_mem_ancestors hqr
  rw [h, List.mem_append, List.mem_cons] at hr
  rcases hr with hr | rfl | hr
  · exact hnear r hr
  · omega
  · have := Path.depth_lt_of_mem_ancestors (hsorted.2.1.1 r hr)
    omega

section Looking

variable {t : String} {time : Int64} {items : Items} {I : Exchange → Prop}

/-- The ancestors of a list are looked for one after the other, as long as none was live. -/
theorem Entry.always_standInsUntilLive_logged (owner : String) {keys : List (Path × Key)}
    (hkeys : ∀ x ∈ keys, x.1.key? = some x.2)
    (hI : ∀ near x far, keys = near ++ x :: far → (∀ y ∈ near, ¬ items.IsLive y.1) →
      ∀ answer, I ⟨.getItem t x.2, answer⟩)
    {st : Option Items × List Exchange} (hst : st.1 = some items ∧ ∀ y ∈ st.2, I y) :
    (standInsUntilLive t owner keys).Always (tableWorld t time).logged st fun _ st' =>
      st'.1 = some items ∧ ∀ y ∈ st'.2, I y := by
  induction keys generalizing st with
  | nil => exact hst
  | cons x keys ih =>
    obtain ⟨path, key⟩ := x
    rw [standInsUntilLive, Program.always_bind, Program.always_ask]
    rintro answer ⟨st₁, _⟩ ⟨h, rfl⟩
    rw [hst.1] at h
    have hnone : ∀ y ∈ ([] : List (Path × Key)), ¬ items.IsLive y.1 :=
      fun y hy => absurd hy List.not_mem_nil
    have hlog : ∀ y ∈ st.2 ++ [⟨.getItem t key, answer⟩], I y :=
      List.forall_mem_append.2
        ⟨hst.2, List.forall_mem_singleton.2 (hI [] (path, key) keys rfl hnone answer)⟩
    replace h := served_of_answers (r := .getItem t key) rfl h
    cases answer with
    | error e => exact ⟨h, hlog⟩
    | ok found =>
      obtain ⟨hst₁, _, ⟨⟩, rfl⟩ := h
      dsimp only
      split
      · exact ⟨hst₁, hlog⟩
      · rename_i hdead
        have hpath : ¬ items.IsLive path := by
          rw [Items.isLive_iff_any, Items.at?_of_key? items (hkeys _ List.mem_cons_self)]
          exact hdead
        rw [Program.always_bind]
        refine (ih (fun y hy => hkeys y (List.mem_cons_of_mem _ hy)) ?_ ⟨hst₁, hlog⟩).imp ?_
        · intro near x far heq hnear
          exact hI ((path, key) :: near) x far (by rw [heq]; rfl)
            (List.forall_mem_cons.2 ⟨hpath, hnear⟩)
        · intro r st' h'
          cases r <;> exact h'

end Looking

namespace Store

variable {s : Store} {time : Int64} {items : Items} {e : Entry} {m : Memory}

/-- The look for the missing ancestors of an entry stops at the first live one. -/
theorem always_withMissingAncestors_logged {st : Option Items × List Exchange}
    (hst : st.1 = some items ∧ ∀ y ∈ st.2, Exchange.Seeks items e.path y) :
    (s.withMissingAncestors e).Always (tableWorld s.table time).logged m st fun _ _ st' =>
      ∀ y ∈ st'.2, Exchange.Seeks items e.path y := by
  obtain ⟨keys, hok, hfst, hkeys⟩ := e.path.ancestorKeys_eq
  have hseeks : ∀ near x far, keys = near ++ x :: far → (∀ y ∈ near, ¬ items.IsLive y.1) →
      ∀ answer, Exchange.Seeks items e.path ⟨.getItem s.table x.2, answer⟩ := by
    rintro near x far rfl hnear answer p hp
    have hx : x ∈ near ++ x :: far := List.mem_append_right _ List.mem_cons_self
    obtain rfl : x.1 = p := Option.some.inj ((Path.path?_of_key? (hkeys x hx)).symm.trans hp)
    rw [List.map_append, List.map_cons] at hfst
    refine Items.sought_of_ancestors_eq hfst.symm fun r hr => ?_
    obtain ⟨y, hy, rfl⟩ := List.mem_map.1 hr
    exact hnear y hy
  unfold withMissingAncestors
  rw [hok, always_ofPath_ok]
  let I (st : Option Items × List Exchange) : Prop :=
    st.1 = some items ∧ ∀ y ∈ st.2, Exchange.Seeks items e.path y
  refine (Client.always_retry (Q := fun _ => I) (I := I) ?_ m hst).imp ?_
  · intro st hst
    rw [Entry.missingAncestors, Program.always_bind]
    refine (Entry.always_standInsUntilLive_logged s.owner hkeys hseeks hst).imp ?_
    intro r st' h
    cases r <;> exact h
  · intro r _ st' h
    cases r <;> exact h.2

/-- Storing an entry reads no path but the ancestors up to the first live one. -/
theorem always_put_logged :
    (s.put e).Always (tableWorld s.table time).logged m (some items, []) fun _ _ st' =>
      ∀ y ∈ st'.2, Exchange.Seeks items e.path y := by
  have hstay : s.bound.Always (tableWorld s.table time).logged m (some items, [])
      fun _ _ st' => st'.1 = some items :=
    Operation.Always.logged (Q := fun _ _ st' => st' = some items) (always_bound items)
  have haside : s.bound.Always (tableWorld s.table time).logged m (some items, [])
      fun _ _ st' => ∀ y ∈ st'.2, Exchange.Seeks items e.path y :=
    s.composed_bound_aside.always_forall (fun y hy p hp => absurd hp (hy.not_reads p)) m
      fun y hy => absurd hy List.not_mem_nil
  have hwrite (es : List Entry) : (s.writeEntries [] es >>= fun _ => pure ()).Composed
      fun r => r.isBatch = true :=
    (composed_writeEntries [] es).bind fun _ => composed_pure ()
  have hbound : s.bound.Always (tableWorld s.table time).logged m (some items, [])
      fun _ _ st' => st'.1 = some items ∧ ∀ y ∈ st'.2, Exchange.Seeks items e.path y :=
    Program.Always.and hstay haside
  refine hbound.bind (fun _ m' st hst => ?_) fun _ _ _ h => h.2
  refine (always_withMissingAncestors_logged hst).bind (fun es m'' st' hst' => ?_) fun _ _ _ h => h
  exact (hwrite es).always_forall
    (fun y hy p hp => absurd hp (Request.not_reads_of_isBatch hy p)) m'' hst'

/-- Storing a list of entries reads no path. -/
theorem always_putAll_logged {σ : Type} {W : World σ} (st : σ) (es : List Entry) :
    (s.putAll es).Always W.logged m (st, []) fun _ _ st' => ∀ y ∈ st'.2, ∀ p, ¬ y.1.Reads p := by
  have hputAll : (s.putAll es).Composed fun r => ∀ p, ¬ r.Reads p :=
    (s.composed_bound_aside.mono fun _ h => h.not_reads).bind fun _ =>
      ((composed_writeEntries ..).mono fun _ h => Request.not_reads_of_isBatch h).bind
        fun _ => composed_pure ()
  exact hputAll.always_forall (fun _ hy => hy) m fun y hy => absurd hy List.not_mem_nil

/-- What is exchanged when an entry is stored reads no path but the ancestors up to the first live
one. -/
theorem seeks_of_mem_exchanges_put {h : Host Service} (hcalm : h.state.IsCalm)
    (hitems : h.state.items? s.table = some items) :
    ∀ x ∈ (s.put e).exchanges Service.backend m h, Exchange.Seeks items e.path x := by
  have hput : (s.put e).Always (tableWorld s.table h.now).logged m (some items, [])
      fun _ _ st' => ∀ y ∈ st'.2, Exchange.Seeks items e.path y := always_put_logged
  rw [← hitems] at hput
  exact hput.run_logged (Service.within_tableWorld s.table h.now) hcalm rfl

/-- What is exchanged when a list of entries is stored reads no path. -/
theorem not_reads_of_mem_exchanges_putAll {h : Host Service} (hcalm : h.state.IsCalm)
    (es : List Entry) :
    ∀ x ∈ (s.putAll es).exchanges Service.backend m h, ∀ p, ¬ x.1.Reads p := by
  have hputAll : (s.putAll es).Always (tableWorld s.table h.now).logged m
      (h.state.items? s.table, []) fun _ _ st' => ∀ y ∈ st'.2, ∀ p, ¬ y.1.Reads p :=
    always_putAll_logged _ es
  exact hputAll.run_logged (Service.within_tableWorld s.table h.now) hcalm rfl

end Store

namespace Stage

/-- **With a look, and without one.** Let the items of paths in a table be those of entries, and let
live paths have live directories above them. Let an entry that has no live file above it be stored
alone and in a list, each time with success. Both leave the same items. Stored alone it has its
ancestors read only up to the first live one, and stored in a list none at all. -/
theorem put_eq_putAll (s : Store) (stage : Stage) (items : Items) (e : Entry) (one all : Step)
    (hitems : stage.items? s = some items)
    (hitem : ∀ p item, items.at? p = some item → ∃ d : Entry, d.item? = some item)
    (htree : ∀ p, items.IsLive p → ∀ q ∈ p.ancestors, items.kind? q = some .directory)
    (hfile : ∀ q ∈ e.path.ancestors, items.kind? q ≠ some .file)
    (hone : one.call = .put e) (hall : all.call = .putAll [e])
    (hok : (perform s stage one).outcome = .ok ())
    (hokAll : (perform s stage all).outcome = .ok ()) :
    ∃ left, (after s stage one).items? s = some left ∧ (after s stage all).items? s = some left ∧
      (∀ x ∈ (s.put e).exchanges Service.backend stage.memory (stage.hostOf one),
        ∀ p, x.1.Reads p → p ∈ e.path.ancestors ∧
          ∀ q ∈ e.path.ancestors, p ∈ q.ancestors → ¬ items.IsLive q) ∧
      ∀ x ∈ (s.putAll [e]).exchanges Service.backend stage.memory (stage.hostOf all),
        ∀ p, ¬ x.1.Reads p := by
  have hleft := items?_after hitems hok
  have hleftAll := items?_after hitems hokAll
  rw [hone, Call.applyAll_writes_of_removals rfl] at hleft
  rw [hall, Call.applyAll_writes_of_removals rfl] at hleftAll
  refine ⟨_, hleft, hleftAll.trans (congrArg some ?_), ?_, ?_⟩
  · exact Items.storeAll_withAncestors_singleton hitem htree hfile s.owner
  · exact Store.seeks_of_mem_exchanges_put rfl hitems
  · exact Store.not_reads_of_mem_exchanges_putAll (h := stage.hostOf all) rfl [e]

end Stage

/-- In a table that a store has made, the items of paths are those of entries. -/
theorem Items.Encodes.exists_item?_eq {items : Items} {createdAt : Int64}
    (h : items.Encodes createdAt) (p : Path) (item : Item) (hat : items.at? p = some item) :
    ∃ d : Entry, d.item? = some item := by
  obtain ⟨hkey, hitem⟩ := key?_of_at? hat
  have hne : item.key ≠ Marker.key := by
    intro heq
    cases (heq ▸ Path.path?_of_key? hkey).symm.trans Marker.path?_key
  obtain ⟨d, hd, -, hpath⟩ := h.entry item.key item hne hitem
  obtain rfl : d.path = p := Option.some.inj (hpath.symm.trans (Path.path?_of_key? hkey))
  have hstored : d.itemAt item.key = item := Except.ok.inj ((Entry.item_of_key? hkey).symm.trans hd)
  exact ⟨d, (Entry.item?_of_key? hkey).trans (congrArg some hstored)⟩

namespace Sample

/-- The inner directory is deleted. -/
def deleteInnerDirectory : Step := { call := .deleteSubtree innerDirectory, now := 7 }

/-- A path below the deleted directory. -/
def missingDirectory : Path := innerDirectory.below ⟨"m", by decide⟩

/-- A file below that one. -/
def deepFile : Entry := .file (missingDirectory.below ⟨"n", by decide⟩) 1 2 3 "o"

theorem ancestors_deepFile :
    deepFile.path.ancestors = [missingDirectory, innerDirectory, directory] := by
  simp [deepFile, Entry.file, missingDirectory, innerDirectory, directory]

/-- The file is stored alone, the first look being throttled. -/
def putDeepFile : Step := { call := .put deepFile, now := 8, throttles := 1 }

/-- The file is stored in a list, some writes being left out. -/
def putAllDeepFile : Step := { call := .putAll [deepFile], now := 9, leftovers := .ofList [(2, 2)] }

/-- The store when the outer directory is live and the inner one is not. -/
def halfLive : Stage := stage.run store [putInnerDirectory, deleteInnerDirectory]

theorem ancestors_innerDirectory : innerDirectory.ancestors = [directory] := by
  simp [innerDirectory, directory]

theorem suits_putInnerDirectory : putInnerDirectory.call.Suits kindOf where
  isLive := rfl
  kind_eq := by decide
  allowed := by
    show ∀ q ∈ innerDirectory.ancestors, kindOf q = .directory
    rw [ancestors_innerDirectory]
    decide

/-- In the table then, the items of paths are those of entries, and live paths have live directories
above them. -/
theorem halfLive_items :
    ∃ items, halfLive.items? store = some items ∧
    (∀ p item, items.at? p = some item → ∃ d : Entry, d.item? = some item) ∧
    ∀ p, items.IsLive p → ∀ q ∈ p.ancestors, items.kind? q = some .directory := by
  obtain ⟨createdAt, hmade⟩ := isMade_stage.items?_eq
  have hsteps : ∀ x ∈ [putInnerDirectory, deleteInnerDirectory], x.call.Suits kindOf := by
    simp only [List.forall_mem_cons]
    exact ⟨suits_putInnerDirectory, trivial, nofun⟩
  obtain ⟨items, hitems, hencodes, hsuits⟩ := Stage.holds_run
    (I := fun items => items.Encodes createdAt ∧ items.Suits kindOf) hmade
    ⟨Items.encodes_madeItems createdAt, Items.suits_madeItems createdAt⟩
    fun x hx items h k =>
      ⟨h.1.applyAll fun w hw => Call.isProper_of_mem_writes (List.mem_of_mem_take hw),
        Call.suits_applyAll_take (hsteps x hx) h.2 k⟩
  exact ⟨items, hitems, hencodes.exists_item?_eq, hsuits.isTree⟩

/-- Stored alone and in a list, the file leaves the same items: the inner directory is live again,
and the outer one as it was. -/
theorem put_eq_putAll_deepFile :
    ∃ items left, halfLive.items? store = some items ∧
    (∀ p item, items.at? p = some item → ∃ d : Entry, d.item? = some item) ∧
    (∀ p, items.IsLive p → ∀ q ∈ p.ancestors, items.kind? q = some .directory) ∧
    (∀ q ∈ deepFile.path.ancestors, items.kind? q ≠ some .file) ∧
    (Stage.perform store halfLive putDeepFile).outcome = .ok () ∧
    (Stage.perform store halfLive putAllDeepFile).outcome = .ok () ∧
    (Stage.after store halfLive putDeepFile).items? store = some left ∧
    (Stage.after store halfLive putAllDeepFile).items? store = some left ∧
    ¬ items.IsLive innerDirectory ∧ left.IsLive innerDirectory := by
  obtain ⟨items, hitems, hitem, htree⟩ := halfLive_items
  have hfiles : (halfLive.items? store).any fun items =>
      (∀ q ∈ [missingDirectory, innerDirectory, directory], items.kind? q ≠ some .file) ∧
        ¬ items.IsLive innerDirectory := by decide +kernel
  rw [hitems, ← ancestors_deepFile] at hfiles
  obtain ⟨hfile, hdead⟩ := of_decide_eq_true hfiles
  have hok : (Stage.perform store halfLive putDeepFile).outcome = .ok () := by decide +kernel
  have hokAll : (Stage.perform store halfLive putAllDeepFile).outcome = .ok () := by
    decide +kernel
  obtain ⟨left, hleft, hleftAll, -, -⟩ := Stage.put_eq_putAll store halfLive items deepFile
    putDeepFile putAllDeepFile hitems hitem htree hfile rfl rfl hok hokAll
  have hlive : ((Stage.after store halfLive putDeepFile).items? store).any fun items =>
      items.IsLive innerDirectory := by decide +kernel
  rw [hleft] at hlive
  exact ⟨items, left, hitems, hitem, htree, hfile, hok, hokAll, hleft, hleftAll, hdead,
    of_decide_eq_true hlive⟩

end Sample

end TableTree
