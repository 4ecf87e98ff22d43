import TableTree.Proofs.Runs
import TableTree.Proofs.Undisturbed.Client
import TableTree.Store.Admin

/-!
# Faults do not show

Whatever a store is used for, and whatever is throttled, fails, or is left out of a batch on the way:
if it succeeds, it has come to what it comes to when nothing goes wrong, and so has the table.

Results:

* `Settings.transparent_bind`: binding to a table.
* `Use`, `Use.perform`: what a store is used for.
* `Use.transparent_perform`: faults do not show in any use unless they make it fail.
* `Use.run_undisturbed`: the same of a run under a plan and one without.
-/

namespace TableTree

open Operation

variable {s : Store}

/-! ## Attempts that read -/

namespace Store

theorem isReader_readEntry (path : Path) (key : Key) (hint : Bool) :
    (s.readEntry path key hint).IsReader := by
  unfold readEntry
  refine (Program.isReader_ask rfl).bind (fun found => ?_) fun _ => rfl
  dsimp only
  split
  · exact Program.isReader_pure _
  · split
    · exact (Program.isReader_ask rfl).bind (fun _ => Program.isReader_pure _) fun _ => rfl
    · exact Program.isReader_pure _

end Store

namespace Entry

theorem isReader_standInsUntilLive (table owner : String) (ancestors : List (Path × Key)) :
    (standInsUntilLive table owner ancestors).IsReader := by
  induction ancestors with
  | nil => exact Program.isReader_pure _
  | cons ancestor further ih =>
    unfold standInsUntilLive
    refine (Program.isReader_ask rfl).bind (fun found => ?_) fun _ => rfl
    dsimp only
    split
    · exact Program.isReader_pure _
    · exact ih.bind (fun _ => Program.isReader_pure _) fun _ => rfl

theorem isReader_missingAncestors (e : Entry) (table owner : String)
    (ancestors : List (Path × Key)) : (e.missingAncestors table owner ancestors).IsReader :=
  (isReader_standInsUntilLive table owner ancestors).bind (fun _ => Program.isReader_pure _)
    fun _ => rfl

end Entry

/-! ## Binding -/

namespace Settings

variable {s : Settings}

theorem exact_describe : s.describe.Exact := Client.exact_retry rfl

theorem transparent_awaitActiveFor (looks : Nat) : (s.awaitActiveFor looks).Transparent := by
  induction looks with
  | zero => exact transparent_throw _
  | succ looks ih =>
    refine s.exact_describe.transparent.bind fun description => ?_
    split
    · exact transparent_pure ()
    · exact transparent_throw _
    · exact (Client.transparent_pause _).bind fun _ => ih

theorem transparent_awaitDeletedFor (looks : Nat) : (s.awaitDeletedFor looks).Transparent := by
  induction looks with
  | zero => exact transparent_throw _
  | succ looks ih =>
    refine s.exact_describe.outcome.bind fun result => ?_
    split
    · exact (Client.transparent_pause _).bind fun _ => ih
    · split
      · exact transparent_pure ()
      · exact transparent_throw _

theorem transparent_readMarker : s.readMarker.Transparent :=
  Client.transparent_retry (Program.repeatable_ask rfl)

theorem transparent_awaitMarker (backoff : Backoff) : (s.awaitMarker backoff).Transparent := by
  -- on the waits that are left
  induction hn : backoff.remaining using Nat.strongRecOn generalizing backoff with
  | ind n ih =>
    rw [awaitMarker]
    refine s.transparent_readMarker.bind fun marker => ?_
    split
    · exact transparent_pure _
    · split
      · exact transparent_pure _
      · rename_i duration backoff' hnext
        exact (Client.transparent_pause _).bind fun _ =>
          ih _ (hn ▸ Backoff.remaining_lt_of_next? hnext) backoff' rfl

theorem transparent_checkMarker : s.checkMarker.Transparent :=
  (transparent_awaitMarker _).bind fun _ => (transparent_ofResult _).bind fun _ =>
    transparent_pure _

theorem transparent_finishTable : s.finishTable.Transparent :=
  (transparent_awaitActiveFor _).bind fun _ => transparent_now.bind fun _ =>
    (Client.transparent_retry (Program.repeatable_ask rfl)).bind fun _ => transparent_pure _

theorem transparent_makeTable : s.makeTable.Transparent := by
  rw [makeTable_eq]
  refine (exact_ask rfl).transparent.bind fun answer => ?_
  split
  · exact transparent_finishTable
  · exact transparent_finishTable
  · exact transparent_throw _

theorem transparent_bindTo (description : TableDescription) :
    (s.bindTo description).Transparent := by
  unfold bindTo
  split
  · exact (transparent_awaitActiveFor _).bind fun _ => transparent_checkMarker
  · exact transparent_throw _
  · exact transparent_throw _
  · exact transparent_checkMarker
  · exact transparent_checkMarker

/-- Faults do not show in binding to a table unless they make it fail. -/
theorem transparent_bind : s.bind.Transparent := by
  refine (exact_ask rfl).transparent.bind fun answer => ?_
  split
  · exact transparent_bindTo _
  · split
    · exact transparent_makeTable
    · exact transparent_throw _
  · exact transparent_throw _

end Settings

namespace Store

theorem transparent_bound : s.bound.Transparent := by
  refine transparent_get_bind (fun m => ?_) fun m m' hm => ?_
  · split
    · exact transparent_throw _
    · split
      · exact transparent_pure _
      · refine s.settings.transparent_bind.bind fun _ => ?_
        refine (transparent_modify ?_).bind fun _ => transparent_pure _
        exact fun _ _ hm => ⟨rfl, hm.destroyed_eq⟩
  · rw [hm.binding_eq, hm.destroyed_eq]

theorem transparent_prepare : s.prepare.Transparent :=
  s.transparent_bound.bind fun _ => transparent_pure ()

/-! ## Reading -/

theorem transparent_get (path : Path) (hint : Bool) : (s.get path hint).Transparent := by
  refine s.transparent_bound.bind fun _ => ?_
  split
  · exact transparent_pure _
  · exact (transparent_ofResult _).bind fun _ =>
      Client.transparent_once (isReader_readEntry ..).repeatable

theorem transparent_listChildren (path : Path) : (s.listChildren path).Transparent := by
  refine s.transparent_bound.bind fun _ =>
    (Client.transparent_once (Program.repeatable_ask rfl)).bind fun items => ?_
  dsimp only
  split
  · exact (transparent_get path false).bind fun _ => transparent_pure _
  · exact transparent_pure _

end Store

namespace Walk

theorem transparent_collect? (visits : Nat) (w : Walk) : (collect? s visits w).Transparent := by
  induction visits generalizing w with
  | zero => exact transparent_pure _
  | succ visits ih =>
    obtain ⟨_ | ⟨e, queue⟩⟩ := w
    · rw [collect?_nil]
      exact transparent_pure _
    · rw [collect?_cons]
      refine .bind ?_ fun _ => (ih _).bind fun _ => transparent_pure _
      split
      · exact Store.transparent_listChildren _
      · exact transparent_pure _

end Walk

/-! ## Changing the tree -/

namespace Store

theorem transparent_writeEntries (deletes : List Key) (entries : List Entry) :
    (s.writeEntries deletes entries).Transparent :=
  (transparent_ofResult _).bind fun _ => Client.transparent_writeAll _ _ _

theorem transparent_withMissingAncestors (e : Entry) : (s.withMissingAncestors e).Transparent :=
  (transparent_ofResult _).bind fun _ =>
    Client.transparent_retry (Entry.isReader_missingAncestors ..).repeatable

theorem transparent_put (e : Entry) : (s.put e).Transparent :=
  s.transparent_bound.bind fun _ => (transparent_withMissingAncestors e).bind fun _ =>
    (transparent_writeEntries _ _).bind fun _ => transparent_pure ()

theorem transparent_putAll (es : List Entry) : (s.putAll es).Transparent :=
  s.transparent_bound.bind fun _ => (transparent_writeEntries _ _).bind fun _ => transparent_pure ()

theorem transparent_putListing (l : Listing) : (s.putListing l).Transparent :=
  s.transparent_bound.bind fun _ => (transparent_withMissingAncestors _).bind fun _ =>
    (transparent_writeEntries _ _).bind fun _ => transparent_pure ()

theorem transparent_delete (path : Path) : (s.delete path).Transparent := by
  refine s.transparent_bound.bind fun _ => ?_
  split
  · exact transparent_pure ()
  · exact transparent_now.bind fun _ => (transparent_ofResult _).bind fun _ =>
      Client.transparent_retry (Program.repeatable_ask rfl)

theorem transparent_forget (path : Path) : (s.forget path).Transparent := by
  refine s.transparent_bound.bind fun _ => ?_
  split
  · exact transparent_pure ()
  · exact (transparent_ofResult _).bind fun _ =>
      Client.transparent_retry (Program.repeatable_ask rfl)

theorem transparent_deleteSubtree? (visits : Nat) (path : Path) :
    (s.deleteSubtree? visits path).Transparent := by
  refine s.transparent_bound.bind fun _ => (transparent_get path false).bind fun root => ?_
  split
  · exact transparent_pure _
  · refine (Walk.transparent_collect? visits _).bind fun subtree => ?_
    split
    · exact transparent_pure _
    · exact transparent_now.bind fun _ => (transparent_writeEntries _ _).bind fun _ =>
        transparent_pure _

theorem transparent_move (deletes : Option (List Path)) (creates : Option (List Entry)) :
    (s.move deletes creates).Transparent := by
  unfold move
  split
  · exact transparent_pure ()
  · refine s.transparent_bound.bind fun _ => ?_
    dsimp only
    split
    · exact (transparent_writeEntries _ _).bind fun _ => transparent_pure ()
    · exact transparent_now.bind fun _ => (transparent_pure _).bind fun _ =>
        (transparent_writeEntries _ _).bind fun _ => transparent_pure ()

theorem transparent_removeSlices (parts : List (List Key)) : (s.removeSlices parts).Transparent := by
  induction parts with
  | nil => exact transparent_pure 0
  | cons keys further ih =>
    exact (Client.transparent_pause _).bind fun _ => (transparent_writeEntries _ _).bind fun _ =>
      ih.bind fun _ => transparent_pure _

theorem transparent_prune (before : Int64) : (s.prune before).Transparent :=
  s.transparent_bound.bind fun _ => (Client.transparent_retry (Program.repeatable_ask rfl)).bind
    fun _ => transparent_removeSlices _

/-- The store counts as destroyed or not, whatever it was before. -/
theorem transparent_setDestroyed (destroyed : Bool) :
    (modify fun m => { m with destroyed := destroyed } : Operation Unit).Transparent :=
  transparent_modify fun _ _ hm => ⟨hm.binding_eq, rfl⟩

theorem transparent_destroy : s.destroy.Transparent := by
  have hdelete : (s.client.retry "delete" s.table true (.ask (.deleteTable s.table))).Exact :=
    Client.exact_retry rfl
  refine transparent_get_bind (fun m => ?_) fun m m' hm => ?_
  · split
    · exact transparent_pure ()
    · refine (transparent_setDestroyed true).bind fun _ => hdelete.outcome.bind fun result => ?_
      split
      · exact Settings.transparent_awaitDeletedFor _
      · split
        · exact transparent_pure ()
        · exact (transparent_setDestroyed false).bind fun _ => transparent_throw _
  · rw [hm.destroyed_eq]

end Store

/-! ## All uses of a store -/

/-- What a store is used for. -/
inductive Use
  | prepare
  | get (path : Path) (hint : Bool)
  | listChildren (path : Path)
  | put (e : Entry)
  | putAll (es : List Entry)
  | putListing (l : Listing)
  | delete (path : Path)
  | forget (path : Path)
  | deleteSubtree (path : Path)
  | move (deletes : Option (List Path)) (creates : Option (List Entry))
  | prune (before : Int64)
  | destroy

/-- What a use gives. -/
@[reducible] def Use.Result : Use → Type
  | .get .. => Option Entry
  | .listChildren _ => Option Listing
  | .deleteSubtree _ => Option Unit
  | .prune _ => Nat
  | _ => Unit

/-- A use of a store. A deletion of a subtree may take so many visits. -/
def Use.perform (s : Store) (visits : Nat) : (u : Use) → Operation u.Result
  | .prepare => s.prepare
  | .get path hint => s.get path hint
  | .listChildren path => s.listChildren path
  | .put e => s.put e
  | .putAll es => s.putAll es
  | .putListing l => s.putListing l
  | .delete path => s.delete path
  | .forget path => s.forget path
  | .deleteSubtree path => s.deleteSubtree? visits path
  | .move deletes creates => s.move deletes creates
  | .prune before => s.prune before
  | .destroy => s.destroy

/-- Faults do not show in any use of a store unless they make it fail. -/
theorem Use.transparent_perform (s : Store) (visits : Nat) (u : Use) :
    (u.perform s visits).Transparent := by
  cases u with
  | prepare => exact s.transparent_prepare
  | get path hint => exact s.transparent_get path hint
  | listChildren path => exact s.transparent_listChildren path
  | put e => exact s.transparent_put e
  | putAll es => exact s.transparent_putAll es
  | putListing l => exact s.transparent_putListing l
  | delete path => exact s.transparent_delete path
  | forget path => exact s.transparent_forget path
  | deleteSubtree path => exact s.transparent_deleteSubtree? visits path
  | move deletes creates => exact s.transparent_move deletes creates
  | prune before => exact s.transparent_prune before
  | destroy => exact s.transparent_destroy

/-- A host whose service follows another plan. -/
def Host.planned (h : Host Service) (plan : Service.Plan) : Host Service :=
  { h with state := { h.state with plan := plan } }

theorem Host.undisturbed_planned (h : Host Service) (throttles faults : Nat)
    (leftovers : Std.ExtTreeMap Nat Nat) :
    (h.planned ⟨throttles, faults, leftovers, 0, []⟩).Undisturbed (h.planned {}) :=
  ⟨⟨rfl, rfl⟩, rfl, rfl, rfl, Nat.le_refl _, .refl _⟩

/-- **Faults do not show.** A use of a store that succeeds while the service throttles, fails, and
leaves out writes as planned gives what it gives when nothing is planned. It leaves the same tables,
and the store bound to the same. -/
theorem Use.run_undisturbed (s : Store) (u : Use) (visits : Nat) (m : Memory) (h : Host Service)
    (throttles faults : Nat) (leftovers : Std.ExtTreeMap Nat Nat) {a : u.Result}
    (hok : ((u.perform s visits).run Service.backend m
      (h.planned ⟨throttles, faults, leftovers, 0, []⟩)).outcome = .ok a) :
    let run := (u.perform s visits).run Service.backend m
      (h.planned ⟨throttles, faults, leftovers, 0, []⟩)
    let undisturbed := (u.perform s visits).run Service.backend m (h.planned {})
    undisturbed.outcome = .ok a ∧ undisturbed.host.state.tables = run.host.state.tables ∧
      undisturbed.memory.binding = run.memory.binding := by
  have hmirrors := u.transparent_perform s visits m m _ _ (.refl m)
    (h.undisturbed_planned throttles faults leftovers) a hok
  exact ⟨hmirrors.outcome_eq.trans hok, hmirrors.host.state.tables_eq, hmirrors.memory.binding_eq⟩

/-- A file is stored below a missing directory. Of the first two looks for the directory one is
throttled and one fails, and of the batch one write is left out. -/
theorem Sample.run_undisturbed_put :
    let run (plan : Service.Plan) := ((Use.put (.file file 1 2 3 "o")).perform store 0).run
      Service.backend stage.memory (stage.host.planned plan)
    let plan : Service.Plan := ⟨1, 1, .ofList [(0, 1)], 0, []⟩
    (run plan).outcome = .ok () ∧ (run plan).host.state.counts.batchSizes = [2, 1] ∧
      (run {}).host.state.counts.batchSizes = [2] ∧ (run {}).outcome = .ok () ∧
      (run {}).host.state.tables = (run plan).host.state.tables ∧
      (run {}).memory.binding = (run plan).memory.binding := by
  intro run plan
  have hok : (run plan).outcome = .ok () := by decide +kernel
  exact ⟨hok, by decide +kernel, by decide +kernel, Use.run_undisturbed store
    (.put (.file file 1 2 3 "o")) 0 stage.memory stage.host 1 1 (.ofList [(0, 1)]) hok⟩

end TableTree
