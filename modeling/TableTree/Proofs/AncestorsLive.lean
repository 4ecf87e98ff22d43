import TableTree.Proofs.Creation
import TableTree.Proofs.Runs

/-!
# Live ancestors

Creation keeps the ancestors of live paths live, also when it fails half way. A move also deletes,
and does not look at what lies below, so it keeps them live exactly when it deletes whatever would be
left below.

Results:

* `Call.Creates`, `Call.deletes`: the calls that create, with live entries, and what they delete.
* `Call.DeletesDownwards`: a move that leaves nothing below what it deletes.
* `Call.upClosed_applyAll_take`: any part of a call that deletes nothing, from the front, keeps
  ancestors live.
* `Call.upClosed_applyAll_iff`: a whole call keeps them live exactly when it deletes downwards.
* `Stage.upClosed_run_iff`: so does a run of calls that succeed.
* `Stage.upClosed_run_of_creates`: a run of calls that delete nothing keeps them live, whatever goes
  wrong.
-/

namespace TableTree

/-- The calls that create entries, all of them live. Moves may delete as well. -/
def Call.Creates : Call → Prop
  | .put e => e.isLive = true
  | .putAll es => ∀ e ∈ es, e.isLive = true
  | .putListing l => l.Fits
  | .move _ creates => ∀ e ∈ creates.getD [], e.isLive = true
  | _ => False

/-- The paths that a call which creates deletes as well. -/
def Call.deletes : Call → List Path
  | .move deletes _ => deletes.getD []
  | _ => []

/-- Whether a call that deletes paths also deletes whatever is live or will be created below
them. -/
def Call.DeletesDownwards (items : Items) : Call → Prop
  | .move deletes creates => ∀ d ∈ deletes.getD [], ∀ p, d ∈ p.ancestors →
    (items.IsLive p ∨ ∃ e ∈ creates.getD [], p = e.path ∨ p ∈ e.path.ancestors) →
      p ∈ deletes.getD []
  | _ => True

namespace Items

variable {items : Items}

/-- The live paths after live entries are stored. -/
theorem isLive_storeAll {es : List Entry}
    (hes : ∀ e ∈ es, e.isLive = true ∧ e.path.isRoot = false) {p : Path} :
    (items.storeAll es).IsLive p ↔ items.IsLive p ∨ ∃ e ∈ es, e.path = p := by
  rw [isLive_storeAll_eq fun e he => (hes e he).2, Entry.foldl_mark_iff fun e he => (hes e he).1]

end Items

namespace Call

variable {owner : String} {items : Items} {now : Int64} {c : Call}

theorem applyAll_writes_of_removals (h : c.removals items = []) :
    items.applyAll (c.writes owner items now) = items.storeAll (c.entries owner items now) := by
  rw [writes, h, List.map_nil, List.nil_append, Items.applyAll_writes]

/-- Some of the writes of a call that removes no items, from the front, store some of its entries,
from the front. -/
theorem exists_applyAll_take_eq (h : c.removals items = []) (owner : String) (now : Int64)
    (k : Nat) :
    ∃ j, items.applyAll ((c.writes owner items now).take k) =
      items.storeAll ((c.entries owner items now).take j) := by
  rw [writes, h, List.map_nil, List.nil_append]
  exact items.exists_applyAll_take_writes _ k

theorem removals_of_creates (h : c.Creates) : c.removals items = [] := by
  cases c with
  | forget path => exact h.elim
  | prune before => exact h.elim
  | _ => rfl

/-- A call that creates and deletes nothing stores live entries, each after its ancestors. -/
theorem ancestorsFirst_entries (hc : c.Creates) (hd : c.deletes = [])
    (hup : UpClosed items.IsLive) :
    (∀ e ∈ c.entries owner items now, e.isLive = true) ∧
      AncestorsFirst items.IsLive (c.entries owner items now) := by
  cases c with
  | put e => exact ⟨fun d => Entry.isLive_of_mem_withStandIns hc, ancestorsFirst_put hup e⟩
  | putAll es => exact ⟨fun d => Entry.isLive_of_mem_withAncestors hc, ancestorsFirst_putAll hc⟩
  | putListing l =>
    exact ⟨fun d hd => Listing.Fits.isLive_of_mem_stored hc (Entry.mem_of_mem_keepLast hd),
      ancestorsFirst_putListing hup hc⟩
  | move deletes creates =>
    have hd : deletes.getD [] = [] := hd
    have hlive : ∀ d ∈ Entry.withAncestors (creates.getD []) owner, d.isLive = true :=
      fun d => Entry.isLive_of_mem_withAncestors hc
    rw [entries, hd, List.filter_nil, List.map_nil, List.append_nil]
    exact ⟨fun d hd => hlive d (Entry.mem_of_mem_keepLast hd),
      ancestorsFirst_keepLast (Entry.ancestorsFirst_withAncestors hc) hlive⟩
  | delete path => exact hc.elim
  | forget path => exact hc.elim
  | deleteSubtree path => exact hc.elim
  | prune before => exact hc.elim

/-- Any part of such a call, from the front, keeps the ancestors of live paths live. -/
theorem upClosed_applyAll_take (hc : c.Creates) (hd : c.deletes = [])
    (hup : UpClosed items.IsLive) (k : Nat) :
    UpClosed (items.applyAll ((c.writes owner items now).take k)).IsLive := by
  obtain ⟨hlive, hfirst⟩ : (∀ e ∈ c.entries owner items now, e.isLive = true) ∧
      AncestorsFirst items.IsLive (c.entries owner items now) := ancestorsFirst_entries hc hd hup
  obtain ⟨j, hj⟩ := exists_applyAll_take_eq (removals_of_creates hc) owner now k
  rw [hj]
  refine Items.upClosed_storeAll hup (fun e he => ?_) (hfirst.take j)
  have hmem := List.mem_of_mem_take he
  exact ⟨hlive e hmem, isRoot_of_mem_entries hmem⟩

theorem upClosed_applyAll (hc : c.Creates) (hd : c.deletes = []) (hup : UpClosed items.IsLive) :
    UpClosed (items.applyAll (c.writes owner items now)).IsLive := by
  rw [← (c.writes owner items now).take_length]
  exact upClosed_applyAll_take hc hd hup _

/-! ### Moves -/

/-- Deleting some paths of a set with the ancestors of its paths leaves such a set exactly when
everything in it below them is deleted as well. -/
theorem upClosed_diff_iff {live doomed : Path → Prop} (h : UpClosed live) :
    UpClosed (fun p => live p ∧ ¬ doomed p) ↔
      ∀ d, doomed d → ∀ p, d ∈ p.ancestors → live p → doomed p := by
  constructor
  · intro hdiff d hd p hm hp
    refine Classical.byContradiction ?_
    intro hnp
    exact (hdiff p ⟨hp, hnp⟩ d hm).2 hd
  · intro hdown p hp q hq
    exact ⟨h p hp.1 q hq, fun hqd => hp.2 (hdown q hqd p hq hp.1)⟩

/-- The paths that a list of entries and the ancestors of its paths make live. -/
def Made (items : Items) (es : List Entry) (p : Path) : Prop :=
  p.isRoot = false ∧ (items.IsLive p ∨ ∃ e ∈ es, p = e.path ∨ p ∈ e.path.ancestors)

theorem upClosed_made (hup : UpClosed items.IsLive) (es : List Entry) :
    UpClosed (Made items es) := by
  rintro p ⟨-, hp⟩ q hq
  refine ⟨Path.isRoot_of_mem_ancestors hq, ?_⟩
  rcases hp with hp | ⟨e, he, rfl | hp⟩
  · exact .inl (hup p hp q hq)
  · exact .inr ⟨e, he, .inr hq⟩
  · exact .inr ⟨e, he, .inr (Path.ancestors_trans hp hq)⟩

/-- After a move, what was live or is created is live unless it is deleted. -/
theorem isLive_move_iff {deletes : Option (List Path)} {creates : Option (List Entry)}
    (hc : (Call.move deletes creates).Creates) (p : Path) :
    (items.applyAll ((Call.move deletes creates).writes owner items now)).IsLive p ↔
      Made items (creates.getD []) p ∧ p ∉ deletes.getD [] := by
  have hmade : (items.IsLive p ∨ ∃ e ∈ creates.getD [], e.path.isRoot = false ∧
      (p = e.path ∨ p ∈ e.path.ancestors)) ↔ Made items (creates.getD []) p := by
    constructor
    · rintro (hp | ⟨e, he, hr, rfl | hp⟩)
      · exact ⟨hp.isRoot, .inl hp⟩
      · exact ⟨hr, .inr ⟨e, he, .inl rfl⟩⟩
      · exact ⟨Path.isRoot_of_mem_ancestors hp, .inr ⟨e, he, .inr hp⟩⟩
    · rintro ⟨hr, hp | ⟨e, he, rfl | hp⟩⟩
      · exact .inl hp
      · exact .inr ⟨e, he, hr, .inl rfl⟩
      · exact .inr ⟨e, he, Path.isRoot_of_mem_ancestors_of hp, .inr hp⟩
  have hcreated : ∀ d ∈ Entry.withAncestors (creates.getD []) owner,
      d.isLive = true ∧ d.path.isRoot = false := by
    intro d hd
    exact ⟨Entry.isLive_of_mem_withAncestors hc hd, (Entry.of_mem_withAncestors hd).1⟩
  -- first everything is created, then the tombstones take over
  rw [applyAll_writes_of_removals rfl, entries, Items.storeAll_keepLast, Items.storeAll_append,
    (Items.buried_storeAll_map _).isLive_iff, Items.isLive_storeAll hcreated,
    Entry.exists_mem_withAncestors, hmade, List.mem_filter]
  apply and_congr_right
  intro h
  simp [h.1]

/-- A move keeps the ancestors of live paths live exactly when it deletes downwards. -/
theorem upClosed_move_iff {deletes : Option (List Path)} {creates : Option (List Entry)}
    (hc : (Call.move deletes creates).Creates) (hup : UpClosed items.IsLive) :
    UpClosed (items.applyAll ((Call.move deletes creates).writes owner items now)).IsLive ↔
      (Call.move deletes creates).DeletesDownwards items := by
  have hlive : (items.applyAll ((Call.move deletes creates).writes owner items now)).IsLive =
      fun p => Made items (creates.getD []) p ∧ ¬ p ∈ deletes.getD [] :=
    funext fun p => propext (isLive_move_iff hc p)
  rw [hlive, upClosed_diff_iff (upClosed_made hup _)]
  constructor
  · exact fun h d hd p hm hp => h d hd p hm ⟨Path.isRoot_of_mem_ancestors_of hm, hp⟩
  · exact fun h d hd p hm hp => h d hd p hm hp.2

/-- A call that creates keeps the ancestors of live paths live exactly when it deletes downwards. -/
theorem upClosed_applyAll_iff (hc : c.Creates) (hup : UpClosed items.IsLive) :
    UpClosed (items.applyAll (c.writes owner items now)).IsLive ↔ c.DeletesDownwards items := by
  cases c with
  | put e => exact iff_of_true (upClosed_applyAll hc rfl hup) trivial
  | putAll es => exact iff_of_true (upClosed_applyAll hc rfl hup) trivial
  | putListing l => exact iff_of_true (upClosed_applyAll hc rfl hup) trivial
  | move deletes creates => exact upClosed_move_iff hc hup
  | delete path => exact hc.elim
  | forget path => exact hc.elim
  | deleteSubtree path => exact hc.elim
  | prune before => exact hc.elim

end Call

namespace Stage

variable {s : Store} {stage : Stage}

/-- A step that succeeds does all writes of its call. -/
theorem items?_after {items : Items} (h : stage.items? s = some items) {x : Step}
    (hok : (perform s stage x).outcome = .ok ()) :
    (after s stage x).items? s = some (items.applyAll (x.call.writes s.owner items x.now)) := by
  have hcommits := commits_after h x
  rw [hok] at hcommits
  exact hcommits

theorem upClosed_run_iff_of_upClosed {items : Items} {steps : List Step}
    (hitems : stage.items? s = some items) (hup : UpClosed items.IsLive)
    (hcreates : ∀ x ∈ steps, x.call.Creates) (hok : Succeeds s stage steps) :
    (∀ k, ∃ items, (run s stage (steps.take k)).items? s = some items ∧ UpClosed items.IsLive) ↔
      ∀ before x after items, steps = before ++ x :: after →
        (run s stage before).items? s = some items → x.call.DeletesDownwards items := by
  induction steps generalizing stage items with
  | nil =>
    refine iff_of_true (fun k => ⟨items, ?_, hup⟩) fun before x after items h => ?_
    · simpa using hitems
    · simp at h
  | cons x steps ih =>
    have hafter := items?_after hitems hok.1
    have hstep : UpClosed (items.applyAll (x.call.writes s.owner items x.now)).IsLive ↔
        x.call.DeletesDownwards items :=
      Call.upClosed_applyAll_iff (hcreates x List.mem_cons_self) hup
    have hcreates' := fun y hy => hcreates y (List.mem_cons_of_mem x hy)
    constructor
    · intro h
      have hup' : UpClosed (items.applyAll (x.call.writes s.owner items x.now)).IsLive := by
        obtain ⟨items', hitems', h'⟩ := h 1
        cases hafter.symm.trans hitems'
        exact h'
      have hrest := (ih hafter hup' hcreates' hok.2).1 fun k => h (k + 1)
      intro before y later items' hsplit hitems'
      cases before with
      | nil =>
        cases hsplit
        cases hitems.symm.trans hitems'
        exact hstep.1 hup'
      | cons z before =>
        cases hsplit
        exact hrest before y later items' rfl hitems'
    · intro h k
      have hup' := hstep.2 (h [] x steps items rfl hitems)
      cases k with
      | zero => exact ⟨items, hitems, hup⟩
      | succ k =>
        refine (ih hafter hup' hcreates' hok.2).2 (fun before y later items' hsplit hitems' => ?_) k
        exact h (x :: before) y later items' (by rw [hsplit]; rfl) hitems'

/-- **Live ancestors.** Let calls that create, moves among them, all succeed on a table that was
just made. After each of them every live path has live ancestors, exactly when each move deletes,
with a path, also whatever is live or created below it. -/
theorem upClosed_run_iff (hmade : stage.IsMade s) {steps : List Step}
    (hcreates : ∀ x ∈ steps, x.call.Creates) (hok : Succeeds s stage steps) :
    (∀ k, ∃ items, (run s stage (steps.take k)).items? s = some items ∧
      ∀ p, items.IsLive p → ∀ q ∈ p.ancestors, items.IsLive q) ↔
      ∀ before x after items, steps = before ++ x :: after →
        (run s stage before).items? s = some items → x.call.DeletesDownwards items := by
  obtain ⟨createdAt, hmade⟩ := hmade.items?_eq
  exact upClosed_run_iff_of_upClosed hmade
    (fun p hp => absurd hp (Items.not_isLive_madeItems createdAt p)) hcreates hok

end Stage

namespace Sample

theorem creates_moveAway : ∀ x ∈ [putFile, moveAway], x.call.Creates := by
  simp only [List.forall_mem_cons]
  exact ⟨rfl, nofun, nofun⟩

/-- A file is stored, and then its directory is moved away. -/
theorem upClosed_run_iff_moveAway :
    stage.IsMade store ∧ (∀ x ∈ [putFile, moveAway], x.call.Creates) ∧
    Stage.Succeeds store stage [putFile, moveAway] ∧
    ((∀ k, ∃ items,
      (Stage.run store stage ([putFile, moveAway].take k)).items? store = some items ∧
      ∀ p, items.IsLive p → ∀ q ∈ p.ancestors, items.IsLive q) ↔
      ∀ before x after items, [putFile, moveAway] = before ++ x :: after →
        (Stage.run store stage before).items? store = some items →
          x.call.DeletesDownwards items) := by
  have hok : Stage.Succeeds store stage [putFile, moveAway] := by decide +kernel
  exact ⟨isMade_stage, creates_moveAway, hok,
    Stage.upClosed_run_iff isMade_stage creates_moveAway hok⟩

/-- The file stays live when its directory is moved away. -/
theorem not_upClosed_moveAway :
    stage.IsMade store ∧ (∀ x ∈ [putFile, moveAway], x.call.Creates) ∧
    Stage.Succeeds store stage [putFile, moveAway] ∧
    ∃ items, (Stage.run store stage [putFile, moveAway]).items? store = some items ∧
      items.IsLive file ∧ directory ∈ file.ancestors ∧ ¬ items.IsLive directory := by
  have hrun : ((Stage.run store stage [putFile, moveAway]).items? store).any fun items =>
      items.IsLive file ∧ ¬ items.IsLive directory := by decide +kernel
  obtain ⟨items, hitems, h⟩ := (Option.any_eq_true _ _).1 hrun
  obtain ⟨hfile, hdirectory⟩ := of_decide_eq_true h
  have hm : directory ∈ file.ancestors := by simp [ancestors_file]
  exact ⟨isMade_stage, creates_moveAway, by decide +kernel, items, hitems, hfile, hm, hdirectory⟩

end Sample

/-! ## Creation that fails half way -/

/-- **Creation that fails half way.** Let every live path of a table have live ancestors. After any
calls that create and delete nothing, whatever becomes of each of them under throttling, faults,
unprocessed writes and shutdown, every live path has live ancestors again. -/
theorem Stage.upClosed_run_of_creates {s : Store} {stage : Stage} {items : Items}
    (hitems : stage.items? s = some items)
    (hup : ∀ p, items.IsLive p → ∀ q ∈ p.ancestors, items.IsLive q) {steps : List Step}
    (hcreates : ∀ x ∈ steps, x.call.Creates) (hdeletes : ∀ x ∈ steps, x.call.deletes = []) :
    ∃ items', (run s stage steps).items? s = some items' ∧
      ∀ p, items'.IsLive p → ∀ q ∈ p.ancestors, items'.IsLive q :=
  holds_run (I := fun items => UpClosed items.IsLive) hitems hup fun x hx _ h k =>
    Call.upClosed_applyAll_take (hcreates x hx) (hdeletes x hx) h k

namespace Sample

/-- A file and a directory below it are stored. One of three writes is left out, and the shutdown
comes before it is sent again. -/
def interruptedPut : Step where
  call := .putAll [.file file 1 2 3 "o", .directory (file.below ⟨"x", by decide⟩) "o"]
  now := 6
  leftovers := .ofList [(0, 1)]
  closesAt := some 0

/-- The file is stored, and the directory below it is not. -/
theorem upClosed_run_interruptedPut :
    ∃ items items', stage.items? store = some items ∧
    (∀ p, items.IsLive p → ∀ q ∈ p.ancestors, items.IsLive q) ∧
    (∀ x ∈ [interruptedPut], x.call.Creates) ∧ (∀ x ∈ [interruptedPut], x.call.deletes = []) ∧
    (Stage.perform store stage interruptedPut).outcome ≠ .ok () ∧
    (Stage.run store stage [interruptedPut]).items? store = some items' ∧
    ∀ p, items'.IsLive p → ∀ q ∈ p.ancestors, items'.IsLive q := by
  obtain ⟨createdAt, hitems⟩ := isMade_stage.items?_eq
  have hup : UpClosed (Settings.madeItems createdAt).IsLive :=
    fun p hp => absurd hp (Items.not_isLive_madeItems createdAt p)
  have hcreates : ∀ x ∈ [interruptedPut], x.call.Creates := by
    intro x hx
    rw [List.mem_singleton.1 hx]
    show ∀ e ∈ _, Entry.isLive e = true
    decide
  have hdeletes : ∀ x ∈ [interruptedPut], x.call.deletes = [] := by
    intro x hx
    rw [List.mem_singleton.1 hx]
    rfl
  obtain ⟨items', hitems', h⟩ := Stage.upClosed_run_of_creates hitems hup hcreates hdeletes
  exact ⟨_, items', hitems, hup, hcreates, hdeletes, by decide +kernel, hitems', h⟩

end Sample

end TableTree
