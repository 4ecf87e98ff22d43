import TableTree.Proofs.AncestorsLive
import TableTree.Proofs.Consistency
import TableTree.Proofs.Granted

/-!
# Repeated calls

A call that failed has done a front part of its writes. When it is made again it looks at the table
anew, so its writes may be others than at first; what it leaves in the end is what it would have left
at once, except for the times of its tombstones.

Results:

* `Items.SameButTimes`: items that are the same except for the times of some tombstones.
* `Call.Repeatable`: the calls that may be repeated.
* `Call.Repeatable.resumes`: repeating a call after a front part of its writes.
* `Stage.sameButTimes_repeated`: repeating a call any number of times, until it succeeds.
-/

namespace TableTree

/-! ## Items but for times -/

/-- The items `items'` are `items` except that the tombstones at the paths in `doomed` may be of
other times. -/
structure Items.SameButTimes (items items' : Items) (doomed : Path → Prop) : Prop where
  tombstones : ∀ p, doomed p → ∃ now now', items.at? p = (Entry.tombstone p now).item? ∧
    items'.at? p = (Entry.tombstone p now').item?
  other : ∀ key, (∀ p, doomed p → p.key? ≠ some key) → items'.item? key = items.item? key

namespace Items

variable {items items' items'' : Items} {doomed doomed' : Path → Prop} {now now' : Int64}

theorem SameButTimes.at?_other (h : items.SameButTimes items' doomed) {p : Path}
    (hp : ¬ doomed p) : items'.at? p = items.at? p := by
  apply at?_congr
  intro key hk
  apply h.other
  intro q hq hkq
  rw [Path.key?_injective hk hkq] at hp
  exact hp hq

theorem sameButTimes_none (h : items' = items) : items.SameButTimes items' fun _ => False where
  tombstones _ := False.elim
  other key _ := by rw [h]

/-- Where there are no tombstones, the items are the same. -/
theorem SameButTimes.eq (h : items.SameButTimes items' fun _ => False) : items' = items :=
  ext_item? fun key => h.other key fun _ => False.elim

/-- Later tombstones at some of the paths. -/
theorem SameButTimes.trans (h : items.SameButTimes items' doomed)
    (h' : items'.SameButTimes items'' doomed') (hd : ∀ p, doomed' p → doomed p) :
    items.SameButTimes items'' doomed where
  tombstones p hp := by
    obtain ⟨now, now', hnow, hnow'⟩ := h.tombstones p hp
    by_cases hp' : doomed' p
    · obtain ⟨_, now'', -, hnow''⟩ := h'.tombstones p hp'
      exact ⟨now, now'', hnow, hnow''⟩
    · exact ⟨now, now', hnow, (h'.at?_other hp').trans hnow'⟩
  other key hkey := by
    rw [h'.other key fun p hp => hkey p (hd p hp), h.other key hkey]

/-- The same paths, buried at different times. -/
theorem Buried.sameButTimes (h : items.Buried items' doomed now)
    (h' : items.Buried items'' doomed now') : items'.SameButTimes items'' doomed where
  tombstones p hp := ⟨now, now', h.tombstone p hp, h'.tombstone p hp⟩
  other key hkey := by rw [h'.other key hkey, h.other key hkey]

end Items

/-! ## Calls that may be repeated -/

namespace Call

/-- The calls that may be repeated on a table: those that store entries, those that move, and the
deletion of a subtree of a tree. -/
def Repeatable (items : Items) : Call → Prop
  | .put _ | .putAll _ | .move .. => True
  | .putListing l => ∀ e ∈ l.entries, e.path.parent? = some l.path
  | .deleteSubtree _ => ∀ p, items.IsLive p → ∀ q ∈ p.ancestors, items.kind? q = some .directory
  | .delete _ | .forget _ | .prune _ => False

/-- The paths at which a call leaves tombstones of its time. -/
def Buries (items : Items) : Call → Path → Prop
  | .move deletes _ => fun p => p ∈ deletes.getD [] ∧ p.isRoot = false
  | .deleteSubtree path => fun p => items.IsLive p ∧ p.isUnder path = true
  | _ => fun _ => False

variable {owner : String} {items : Items} {now time now' : Int64} {c : Call}

theorem removals_of_stores (h : c.Stores) : c.removals items = [] := by
  cases c with
  | forget path => exact h.elim
  | prune before => exact h.elim
  | _ => rfl

/-! ### Calls that look for missing ancestors -/

/-- What is stored with stand-ins for the missing ancestors of a path, where the rest is the same in
every table and at every time. -/
def Completes (c : Call) (owner : String) (p : Path) (es : List Entry) : Prop :=
  (∀ e ∈ es, e.path ∉ p.ancestors) ∧
    ∀ items now, c.entries owner items now = items.standIns owner p ++ es

theorem not_mem_ancestors_self (p : Path) : p ∉ p.ancestors :=
  fun h => Path.ne_of_mem_ancestors h rfl

theorem completes_put (owner : String) (e : Entry) :
    ∃ es, (Call.put e).Completes owner e.path es := by
  refine ⟨if e.path.isRoot then [] else [e], fun d hd => ?_, fun _ _ => rfl⟩
  split at hd
  · exact absurd hd List.not_mem_nil
  · rw [List.mem_singleton.1 hd]
    exact not_mem_ancestors_self e.path

/-- What a listing stores comes after the stand-ins for the ancestors of its path. -/
theorem completes_putListing (owner : String) {l : Listing}
    (hl : ∀ e ∈ l.entries, e.path.parent? = some l.path) :
    ∃ es, (Call.putListing l).Completes owner l.path es := by
  let rest : List Entry := (if l.path.isRoot then [] else [l.directory owner]) ++
    l.entries.filter fun e => !e.path.isRoot
  have hrest : ∀ e ∈ rest, e.path ∉ l.path.ancestors := by
    intro e he hm
    rcases List.mem_append.1 he with he | he
    · split at he
      · exact List.not_mem_nil he
      · rw [List.mem_singleton.1 he] at hm
        exact not_mem_ancestors_self l.path hm
    · have hchild := hl e (List.mem_filter.1 he).1
      have hbelow : l.path ∈ e.path.ancestors :=
        (Path.mem_ancestors_of_parent? hchild).2 ⟨Path.isRoot_of_mem_ancestors_of hm, .inl rfl⟩
      exact not_mem_ancestors_self l.path (Path.ancestors_trans hm hbelow)
  refine ⟨Entry.keepLast rest, fun e he => hrest e (Entry.mem_of_mem_keepLast he), ?_⟩
  intro items now
  rw [entries, Items.withMissing, List.append_assoc]
  refine Entry.keepLast_append_of_ne (Items.pairwise_standIns l.path) ?_
  intro d hd e he hp
  exact hrest e he (hp ▸ Items.path_mem_ancestors_of_mem_standIns hd)

/-- The entries of such a call are the same list but for the stand-ins that have been stored. -/
theorem Completes.storeAll_entries {p : Path} {es : List Entry} (h : c.Completes owner p es)
    (j : Nat) :
    (items.storeAll ((c.entries owner items time).take j)).storeAll
        (c.entries owner (items.storeAll ((c.entries owner items time).take j)) now') =
      items.storeAll (c.entries owner items now) := by
  rw [h.2, h.2, h.2]
  exact Items.storeAll_take_storeAll_standIns h.1 j

/-! ### Moves -/

/-- A move leaves what it creates, with tombstones of its time at what it deletes. -/
theorem buried_move (deletes : Option (List Path)) (creates : Option (List Entry)) :
    (items.storeAll (Entry.withAncestors (creates.getD []) owner)).Buried
      (items.storeAll ((Call.move deletes creates).entries owner items now))
      ((Call.move deletes creates).Buries items) now := by
  rw [entries, Items.storeAll_keepLast, Items.storeAll_append]
  refine (Items.buried_storeAll_map _).congr ?_
  intro p
  rw [List.mem_filter, Bool.not_eq_true']
  rfl

/-- Some of the entries of a move leave no trace under all of them, which are the same for all
items. -/
theorem storeAll_take_move (deletes : Option (List Path)) (creates : Option (List Entry)) (j : Nat)
    (items' : Items) :
    (items.storeAll (((Call.move deletes creates).entries owner items time).take j)).storeAll
        ((Call.move deletes creates).entries owner items' now) =
      items.storeAll ((Call.move deletes creates).entries owner items now) := by
  rw [entries, entries, entries, Items.storeAll_keepLast, Items.storeAll_keepLast]
  refine Items.storeAll_storeAll ?_
  intro d hd
  rcases List.mem_append.1 (Entry.mem_of_mem_keepLast (List.mem_of_mem_take hd)) with hd | hd
  · exact ⟨d, List.mem_append_left _ hd, rfl⟩
  · obtain ⟨p, hp, rfl⟩ := List.mem_map.1 hd
    exact ⟨.tombstone p now, List.mem_append_right _ (List.mem_map.2 ⟨p, hp, rfl⟩), rfl⟩

/-! ### Deletions of subtrees -/

/-- A front part of the deletion of a subtree of a tree leaves a tree, with some of the paths at or
below the path buried. -/
theorem buried_take_deleteSubtree (owner : String) (now : Int64) (path : Path)
    (htree : items.IsTree) (j : Nat) :
    ∃ items', items.storeAll (((Call.deleteSubtree path).entries owner items now).take j) = items' ∧
      items'.IsTree ∧ ∃ doomed : Path → Prop,
        (∀ p, doomed p → (Call.deleteSubtree path).Buries items p) ∧
          items.Buried items' doomed now := by
  obtain ⟨es, hes⟩ := Items.exists_snapshot?_eq owner path (Nat.lt_add_of_pos_right Nat.two_pos)
  rw [entries, hes]
  obtain ⟨htree', doomed, hdoomed, hburied⟩ := Items.buried_take_snapshot htree hes j
  exact ⟨_, rfl, htree', doomed, fun p hp => htree.connected_iff.1 (hdoomed p hp), hburied⟩

/-- The deletion of a subtree of a tree buries what is live at or below the path. -/
theorem buried_deleteSubtree {path : Path} (htree : items.IsTree) :
    items.Buried (items.storeAll ((Call.deleteSubtree path).entries owner items now))
      ((Call.deleteSubtree path).Buries items) now := by
  obtain ⟨es, hes⟩ := Items.exists_snapshot?_eq owner path (Nat.lt_add_of_pos_right Nat.two_pos)
  rw [entries, hes]
  exact (Items.buried_snapshot hes).congr fun _ => htree.connected_iff

/-- A deletion of a subtree that goes on from what an earlier one has left. -/
theorem same_deleteSubtree {items' : Items} {path : Path} {doomed : Path → Prop}
    (htree : items.IsTree) (htree' : items'.IsTree)
    (hdoomed : ∀ p, doomed p → (Call.deleteSubtree path).Buries items p)
    (hburied : items.Buried items' doomed time) :
    (items.storeAll ((Call.deleteSubtree path).entries owner items now)).SameButTimes
      (items'.storeAll ((Call.deleteSubtree path).entries owner items' now'))
      ((Call.deleteSubtree path).Buries items) := by
  have hfirst : items.Buried (items.storeAll ((Call.deleteSubtree path).entries owner items now))
      ((Call.deleteSubtree path).Buries items) now := buried_deleteSubtree htree
  have hagain : items'.Buried
      (items'.storeAll ((Call.deleteSubtree path).entries owner items' now'))
      ((Call.deleteSubtree path).Buries items') now' := buried_deleteSubtree htree'
  constructor
  · intro p hp
    by_cases hlive : items'.IsLive p
    · exact ⟨now, now', hfirst.tombstone p hp, hagain.tombstone p ⟨hlive, hp.2⟩⟩
    · -- the first deletion has buried it
      have hpd : doomed p := by
        refine Classical.byContradiction ?_
        intro hnot
        exact hlive (hburied.isLive_iff.2 ⟨hp.1, hnot⟩)
      refine ⟨now, time, hfirst.tombstone p hp, ?_⟩
      rw [hagain.at?_other fun h => hlive h.1]
      exact hburied.tombstone p hpd
  · intro key hkey
    have hsub : ∀ p, (Call.deleteSubtree path).Buries items' p →
        (Call.deleteSubtree path).Buries items p :=
      fun p hp => ⟨(hburied.isLive_iff.1 hp.1).1, hp.2⟩
    rw [hfirst.other key hkey, hagain.other key fun p hp => hkey p (hsub p hp),
      hburied.other key fun p hp => hkey p (hdoomed p hp)]

/-! ### All of them -/

/-- What a call does that is made again after a front part of its writes. -/
structure Resumes (c : Call) (owner : String) (items items' : Items) : Prop where
  repeatable : c.Repeatable items'
  buries : ∀ p, c.Buries items' p → c.Buries items p
  same : ∀ now now', (items.applyAll (c.writes owner items now)).SameButTimes
    (items'.applyAll (c.writes owner items' now')) (c.Buries items)

theorem Completes.resumes {p : Path} {es : List Entry} (h : c.Completes owner p es)
    (hr : ∀ items, c.removals items = [] ∧ (c.Buries items = fun _ => False) ∧ c.Repeatable items)
    (j : Nat) : c.Resumes owner items (items.storeAll ((c.entries owner items time).take j)) := by
  refine ⟨(hr _).2.2, fun p => by rw [(hr _).2.1]; exact False.elim, fun now now' => ?_⟩
  rw [(hr items).2.1, applyAll_writes_of_removals (hr _).1,
    applyAll_writes_of_removals (hr _).1]
  exact Items.sameButTimes_none (h.storeAll_entries j)

theorem Repeatable.stores (h : c.Repeatable items) : c.Stores := by
  cases c with
  | delete path => exact h.elim
  | forget path => exact h.elim
  | prune before => exact h.elim
  | _ => trivial

/-- A call that may be repeated resumes after any front part of its writes. -/
theorem Repeatable.resumes (h : c.Repeatable items) (owner : String) (time : Int64) (k : Nat) :
    c.Resumes owner items (items.applyAll ((c.writes owner items time).take k)) := by
  obtain ⟨j, hj⟩ := exists_applyAll_take_eq (removals_of_stores h.stores) owner time k
  rw [hj]
  cases c with
  | put e =>
    obtain ⟨es, hes⟩ := completes_put owner e
    exact hes.resumes (fun _ => ⟨rfl, rfl, trivial⟩) j
  | putListing l =>
    obtain ⟨es, hes⟩ := completes_putListing owner h
    exact hes.resumes (fun _ => ⟨rfl, rfl, h⟩) j
  | putAll es =>
    refine ⟨trivial, fun p => id, fun now now' => ?_⟩
    rw [applyAll_writes_of_removals rfl, applyAll_writes_of_removals rfl]
    refine Items.sameButTimes_none (Items.storeAll_storeAll ?_)
    exact fun d hd => ⟨d, List.mem_of_mem_take hd, rfl⟩
  | move deletes creates =>
    refine ⟨trivial, fun p => id, fun now now' => ?_⟩
    rw [applyAll_writes_of_removals rfl, applyAll_writes_of_removals rfl, storeAll_take_move]
    exact (buried_move deletes creates).sameButTimes (buried_move deletes creates)
  | deleteSubtree path =>
    obtain ⟨items', hitems', htree', doomed, hdoomed, hburied⟩ :=
      buried_take_deleteSubtree owner time path h j
    rw [hitems']
    refine ⟨htree', fun p hp => ⟨(hburied.isLive_iff.1 hp.1).1, hp.2⟩, fun now now' => ?_⟩
    rw [applyAll_writes_of_removals rfl, applyAll_writes_of_removals rfl]
    exact same_deleteSubtree h htree' hdoomed hburied
  | delete path => exact h.elim
  | forget path => exact h.elim
  | prune before => exact h.elim

end Call

/-! ## Runs -/

namespace Stage

variable {s : Store} {stage : Stage} {items : Items} {c : Call}

/-- A call that is repeated until it succeeds leaves what all its writes would have left at first. -/
theorem exists_sameButTimes_repeated (hitems : stage.items? s = some items)
    (hc : c.Repeatable items) {attempts : List Step} {last : Step}
    (hattempts : ∀ x ∈ attempts, x.call = c) (hlast : last.call = c)
    (hok : (perform s (run s stage attempts) last).outcome = .ok ()) :
    ∃ final, (after s (run s stage attempts) last).items? s = some final ∧
      ∀ now, (items.applyAll (c.writes s.owner items now)).SameButTimes final (c.Buries items) := by
  induction attempts generalizing stage items with
  | nil =>
    subst hlast
    exact ⟨_, items?_after hitems hok, fun now => (hc.resumes s.owner now 0).same now last.now⟩
  | cons x attempts ih =>
    obtain rfl : x.call = c := hattempts x List.mem_cons_self
    obtain ⟨k, hk⟩ := (commits_after hitems x).exists_take
    have hresumes := hc.resumes s.owner x.now k
    obtain ⟨final, hfinal, hsame⟩ := ih hk hresumes.repeatable
      (fun y hy => hattempts y (List.mem_cons_of_mem x hy)) hok
    exact ⟨final, hfinal, fun now =>
      (hresumes.same now now).trans (hsame now) hresumes.buries⟩

/-- **Repeating a call until it succeeds.** Let a call be made on a table any number of times,
whatever becomes of it each time, and then once more, with success. The table then holds what a
single call that succeeds leaves there, except for the times of the tombstones. A single call does
succeed if nothing goes wrong and the store can bind to the table. -/
theorem sameButTimes_repeated (hitems : stage.items? s = some items) (hc : c.Repeatable items)
    {attempts : List Step} {last : Step} (hattempts : ∀ x ∈ attempts, x.call = c)
    (hlast : last.call = c) (hok : (perform s (run s stage attempts) last).outcome = .ok ()) :
    ∃ final, (after s (run s stage attempts) last).items? s = some final ∧
      (∀ once : Step, once.call = c → (perform s stage once).outcome = .ok () →
        ∃ single, (after s stage once).items? s = some single ∧
          single.SameButTimes final (c.Buries items)) ∧
      ∀ now closesAt, s.settings.check = .ok () →
        let once : Step := { call := c, now := now, closesAt := closesAt }
        (s.prepare.run Service.backend stage.memory (stage.hostOf once)).outcome = .ok () →
          (perform s stage once).outcome = .ok () := by
  obtain ⟨final, hfinal, hsame⟩ := exists_sameButTimes_repeated hitems hc hattempts hlast hok
  refine ⟨final, hfinal, ?_, ?_⟩
  · rintro once rfl hsingle
    exact ⟨_, items?_after hitems hsingle, hsame once.now⟩
  · intro now closesAt hcheck once hprepare
    have hitems' : (stage.hostOf once).state.items? s.table = some items := hitems
    refine Call.outcome_perform_of_prepared hcheck rfl hitems' hprepare ?_ hc.stores
    rw [Service.walkBound, hitems', Option.elim_some]
    omega

end Stage

namespace Sample

/-- The directory is deleted with all below it, which is cut short at first. -/
theorem sameButTimes_repeated_interrupted :
    ∃ items, (stage.after store putFile).items? store = some items ∧
    (Call.deleteSubtree directory).Repeatable items ∧
    (∀ x ∈ [interruptedDelete], x.call = .deleteSubtree directory) ∧
    deleteSubtree.call = .deleteSubtree directory ∧
    (Stage.perform store (stage.after store putFile) interruptedDelete).outcome ≠ .ok () ∧
    (Stage.perform store ((stage.after store putFile).run store [interruptedDelete])
      deleteSubtree).outcome = .ok () ∧
    ∃ final, (Stage.after store ((stage.after store putFile).run store [interruptedDelete])
        deleteSubtree).items? store = some final ∧
      (∀ once : Step, once.call = .deleteSubtree directory →
        (Stage.perform store (stage.after store putFile) once).outcome = .ok () →
        ∃ single, (Stage.after store (stage.after store putFile) once).items? store = some single ∧
          single.SameButTimes final ((Call.deleteSubtree directory).Buries items)) ∧
      ∀ now closesAt, store.settings.check = .ok () →
        let once : Step :=
          { call := .deleteSubtree directory, now := now, closesAt := closesAt }
        (store.prepare.run Service.backend (stage.after store putFile).memory
          ((stage.after store putFile).hostOf once)).outcome = .ok () →
          (Stage.perform store (stage.after store putFile) once).outcome = .ok () := by
  have hput : ∀ x ∈ [putFile], x.call.Suits kindOf := by
    simp only [List.forall_mem_cons]
    exact ⟨suits_putFile, nofun⟩
  obtain ⟨items, hitems, hsuits⟩ := Stage.suits_run isMade_stage [putFile] hput
  have hcalls : ∀ x ∈ [interruptedDelete], x.call = .deleteSubtree directory := by
    intro x hx
    rw [List.mem_singleton.1 hx]
    rfl
  have hok : (Stage.perform store ((stage.after store putFile).run store [interruptedDelete])
      deleteSubtree).outcome = .ok () := by decide +kernel
  exact ⟨items, hitems, hsuits.isTree, hcalls, rfl, by decide +kernel, hok,
    Stage.sameButTimes_repeated (c := .deleteSubtree directory) hitems hsuits.isTree hcalls rfl hok⟩

end Sample

end TableTree
