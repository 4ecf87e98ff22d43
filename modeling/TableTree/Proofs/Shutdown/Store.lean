import TableTree.Proofs.Shutdown.Pauses

/-!
# Operations of a store that is closed

All that a store is asked for heeds the shutdown, if its settings let each pause take time: once a
pause was interrupted, no operation tries again, takes up the next slice, or takes the failure for
another one. So on a closed store each stops at its first pause.

Results:

* `Settings.IsPatient`: settings with pauses that take time.
* `Store.heeds_get`, `Store.heeds_put` and so on: the operations of a store.
* `Action.heeds_perform`: all that a store is asked for.
* `Action.perform_stopsAtFirstPause`: what it comes to on a closed store.
-/

namespace TableTree

open Operation

variable {σ α : Type}

/-! ## Settings -/

/-- All pauses of a store with the settings take time. -/
structure Settings.IsPatient (s : Settings) : Prop where
  minRetrySleep : 0 < s.minRetrySleep.nanos
  maxRetrySleep : 0 < s.maxRetrySleep.nanos
  backgroundSleep : 0 < s.backgroundSleep.nanos
  tablePollInterval : 0 < s.tablePollInterval.nanos

theorem Policy.factor_pos (count : UInt32) : 0 < factor count := by
  unfold factor
  split
  · rw [Nat.shiftLeft_eq, Nat.one_mul]
    exact Nat.two_pow_pos _
  · decide

theorem Settings.IsPatient.client {s : Settings} (hs : s.IsPatient) : s.client.IsPatient := by
  intro count d hwait
  rw [Policy.nanos_delay? hwait]
  have hscaled := Nat.mul_pos hs.minRetrySleep (Policy.factor_pos count)
  have hmax : 0 < maxNanos := by decide
  exact Nat.lt_min.2 ⟨Nat.lt_min.2 ⟨hscaled, hmax⟩, hs.maxRetrySleep⟩

/-! ## Binding -/

namespace Settings

variable {s : Settings}

theorem heeds_describe (hs : s.IsPatient) : s.describe.Heeds s.client :=
  Client.heeds_retry hs.client (Program.onlySends_ask _)

theorem heeds_awaitActiveFor (hs : s.IsPatient) (looks : Nat) :
    (s.awaitActiveFor looks).Heeds s.client := by
  induction looks with
  | zero => exact heeds_throw _
  | succ looks ih =>
    refine (heeds_describe hs).bind fun description => ?_
    split
    · exact heeds_pure ()
    · exact heeds_throw _
    · exact (Client.heeds_pause hs.tablePollInterval).bind fun _ => ih

/-- Only a table that is not found counts as gone, so an interrupted look ends the waiting. -/
theorem heeds_awaitDeletedFor (hs : s.IsPatient) (looks : Nat) :
    (s.awaitDeletedFor looks).Heeds s.client := by
  induction looks with
  | zero => exact heeds_throw _
  | succ looks ih =>
    refine (heeds_describe hs).outcome_bind (fun result => ?_) fun site m => ⟨m, rfl⟩
    split
    · exact (Client.heeds_pause hs.tablePollInterval).bind fun _ => ih
    · split
      · exact heeds_pure ()
      · exact heeds_throw _

theorem heeds_awaitMarker (hs : s.IsPatient) {backoff : Backoff}
    (hpolicy : backoff.policy = s.policy) : (s.awaitMarker backoff).Heeds s.client := by
  -- on the waits that are left
  induction hn : backoff.remaining using Nat.strongRecOn generalizing backoff with
  | ind n ih =>
    rw [awaitMarker]
    refine (Client.heeds_retry hs.client (Program.onlySends_ask _)).bind fun marker => ?_
    split
    · exact heeds_pure _
    · split
      · exact heeds_pure _
      · rename_i duration backoff' hnext
        have hless := hn ▸ Backoff.remaining_lt_of_next? hnext
        obtain ⟨hwait, rfl⟩ := Backoff.next?_eq_some_iff.1 hnext
        rw [hpolicy] at hwait
        exact (Client.heeds_pause (hs.client _ _ hwait)).bind fun _ => ih _ hless hpolicy rfl

theorem heeds_checkMarker (hs : s.IsPatient) : s.checkMarker.Heeds s.client :=
  (heeds_awaitMarker hs rfl).bind fun _ => (heeds_ofResult _).bind fun _ => heeds_pure _

theorem heeds_finishTable (hs : s.IsPatient) : s.finishTable.Heeds s.client :=
  (heeds_awaitActiveFor hs _).bind fun _ => heeds_now.bind fun _ =>
    (Client.heeds_retry hs.client (Program.onlySends_ask _)).bind fun _ => heeds_pure _

theorem heeds_makeTable (hs : s.IsPatient) : s.makeTable.Heeds s.client := by
  rw [makeTable_eq]
  refine (heeds_perform (Program.onlySends_ask _)).bind fun answer => ?_
  split
  · exact heeds_finishTable hs
  · exact heeds_finishTable hs
  · exact heeds_throw _

theorem heeds_bindTo (hs : s.IsPatient) (description : TableDescription) :
    (s.bindTo description).Heeds s.client := by
  unfold bindTo
  split
  · exact (heeds_awaitActiveFor hs _).bind fun _ => heeds_checkMarker hs
  · exact heeds_throw _
  · exact heeds_throw _
  · exact heeds_checkMarker hs
  · exact heeds_checkMarker hs

theorem heeds_bind (hs : s.IsPatient) : s.bind.Heeds s.client := by
  refine (heeds_perform (Program.onlySends_ask _)).bind fun answer => ?_
  split
  · exact heeds_bindTo hs _
  · split
    · exact heeds_makeTable hs
    · exact heeds_throw _
  · exact heeds_throw _

end Settings

/-! ## What is sent in one attempt -/

namespace Store

variable {s : Store}

theorem onlySends_readEntry (path : Path) (key : Key) (hint : Bool) :
    (s.readEntry path key hint).OnlySends := by
  refine (Program.onlySends_ask _).bind fun found => ?_
  split
  · exact Program.onlySends_pure _
  split
  · exact Program.onlySends_pure _
  split
  · refine (Program.onlySends_ask _).bind fun children => ?_
    split
    · exact Program.onlySends_pure _
    · exact Program.onlySends_pure _
  · exact Program.onlySends_pure _

end Store

theorem Entry.onlySends_standInsUntilLive (table owner : String) (ancestors : List (Path × Key)) :
    (standInsUntilLive table owner ancestors).OnlySends := by
  induction ancestors with
  | nil => exact Program.onlySends_pure _
  | cons ancestor further ih =>
    unfold standInsUntilLive
    refine (Program.onlySends_ask _).bind fun found => ?_
    split
    · exact Program.onlySends_pure _
    split
    · exact Program.onlySends_pure _
    refine ih.bind fun above => ?_
    split
    · exact Program.onlySends_pure _
    · exact Program.onlySends_pure _

theorem Entry.onlySends_missingAncestors (e : Entry) (table owner : String)
    (ancestors : List (Path × Key)) : (e.missingAncestors table owner ancestors).OnlySends := by
  refine (onlySends_standInsUntilLive table owner ancestors).bind fun above => ?_
  split
  · exact Program.onlySends_pure _
  · exact Program.onlySends_pure _

/-! ## The operations of a store -/

namespace Store

variable {s : Store}

theorem heeds_bound (hs : s.settings.IsPatient) : s.bound.Heeds s.client := by
  refine heeds_known fun m => ?_
  split
  · exact heeds_throw _
  · split
    · exact heeds_pure _
    · exact (Settings.heeds_bind hs).bind fun _ => (heeds_modify _).bind fun _ => heeds_pure _

theorem heeds_prepare (hs : s.settings.IsPatient) : s.prepare.Heeds s.client :=
  (heeds_bound hs).bind fun _ => heeds_pure ()

/-! ### Reading -/

theorem heeds_get (hs : s.settings.IsPatient) (path : Path) (hint : Bool) :
    (s.get path hint).Heeds s.client := by
  refine (heeds_bound hs).bind fun _ => ?_
  split
  · exact heeds_pure _
  · exact (heeds_ofResult _).bind fun key => Client.heeds_once (onlySends_readEntry path key hint)

theorem heeds_listChildren (hs : s.settings.IsPatient) (path : Path) :
    (s.listChildren path).Heeds s.client := by
  refine (heeds_bound hs).bind fun _ =>
    (Client.heeds_once (Program.onlySends_ask _)).bind fun items => ?_
  dsimp only
  split
  · exact (heeds_get hs path false).bind fun _ => heeds_pure _
  · exact heeds_pure _

theorem heeds_collect? (hs : s.settings.IsPatient) (visits : Nat) (w : Walk) :
    (w.collect? s visits).Heeds s.client := by
  induction visits generalizing w with
  | zero => exact heeds_pure _
  | succ visits ih =>
    obtain ⟨_ | ⟨e, queue⟩⟩ := w
    · rw [Walk.collect?_nil]
      exact heeds_pure _
    · rw [Walk.collect?_cons]
      refine Heeds.bind ?_ fun _ => (ih _).bind fun _ => heeds_pure _
      split
      · exact heeds_listChildren hs _
      · exact heeds_pure _

/-! ### Changing the tree -/

theorem heeds_withMissingAncestors (hs : s.settings.IsPatient) (e : Entry) :
    (s.withMissingAncestors e).Heeds s.client :=
  (heeds_ofResult _).bind fun ancestors =>
    Client.heeds_retry hs.client (e.onlySends_missingAncestors s.table s.owner ancestors)

theorem heeds_writeEntries (hs : s.settings.IsPatient) (deletes : List Key) (entries : List Entry) :
    (s.writeEntries deletes entries).Heeds s.client :=
  (heeds_ofResult _).bind fun _ => Client.heeds_writeAll hs.client _ _ _

theorem heeds_delete (hs : s.settings.IsPatient) (path : Path) :
    (s.delete path).Heeds s.client := by
  refine (heeds_bound hs).bind fun _ => ?_
  split
  · exact heeds_pure ()
  · exact heeds_now.bind fun _ => (heeds_ofResult _).bind fun _ =>
      Client.heeds_retry hs.client (Program.onlySends_ask _)

theorem heeds_forget (hs : s.settings.IsPatient) (path : Path) :
    (s.forget path).Heeds s.client := by
  refine (heeds_bound hs).bind fun _ => ?_
  split
  · exact heeds_pure ()
  · exact (heeds_ofResult _).bind fun _ => Client.heeds_retry hs.client (Program.onlySends_ask _)

theorem heeds_put (hs : s.settings.IsPatient) (e : Entry) : (s.put e).Heeds s.client :=
  (heeds_bound hs).bind fun _ => (heeds_withMissingAncestors hs e).bind fun _ =>
    (heeds_writeEntries hs _ _).bind fun _ => heeds_pure ()

theorem heeds_putAll (hs : s.settings.IsPatient) (es : List Entry) : (s.putAll es).Heeds s.client :=
  (heeds_bound hs).bind fun _ => (heeds_writeEntries hs _ _).bind fun _ => heeds_pure ()

theorem heeds_putListing (hs : s.settings.IsPatient) (l : Listing) :
    (s.putListing l).Heeds s.client :=
  (heeds_bound hs).bind fun _ => (heeds_withMissingAncestors hs _).bind fun _ =>
    (heeds_writeEntries hs _ _).bind fun _ => heeds_pure ()

theorem heeds_deleteSubtree? (hs : s.settings.IsPatient) (visits : Nat) (path : Path) :
    (s.deleteSubtree? visits path).Heeds s.client := by
  refine (heeds_bound hs).bind fun _ => (heeds_get hs path false).bind fun root => ?_
  split
  · exact heeds_pure _
  · refine (heeds_collect? hs visits _).bind fun subtree => ?_
    split
    · exact heeds_pure _
    · exact heeds_now.bind fun _ => (heeds_writeEntries hs _ _).bind fun _ => heeds_pure _

theorem heeds_move (hs : s.settings.IsPatient) (deletes : Option (List Path))
    (creates : Option (List Entry)) : (s.move deletes creates).Heeds s.client := by
  unfold move
  split
  · exact heeds_pure ()
  · refine (heeds_bound hs).bind fun _ => ?_
    dsimp only
    split
    · exact (heeds_writeEntries hs _ _).bind fun _ => heeds_pure ()
    · exact heeds_now.bind fun _ => (heeds_pure _).bind fun _ =>
        (heeds_writeEntries hs _ _).bind fun _ => heeds_pure ()

/-- An interruption before one slice keeps all further ones. -/
theorem heeds_removeSlices (hs : s.settings.IsPatient) (parts : List (List Key)) :
    (s.removeSlices parts).Heeds s.client := by
  induction parts with
  | nil => exact heeds_pure 0
  | cons keys further ih =>
    exact (Client.heeds_pause hs.backgroundSleep).bind fun _ =>
      (heeds_writeEntries hs _ _).bind fun _ => ih.bind fun _ => heeds_pure _

theorem heeds_prune (hs : s.settings.IsPatient) (before : Int64) :
    (s.prune before).Heeds s.client :=
  (heeds_bound hs).bind fun _ =>
    (Client.heeds_retry hs.client (Program.onlySends_ask _)).bind fun _ => heeds_removeSlices hs _

/-! ### Looking after the table -/

theorem heeds_describe : s.describe.Heeds s.client :=
  Client.heeds_once (Program.onlySends_ask _)

theorem heeds_updateCapacity (hs : s.settings.IsPatient) (read write : Option Int64) :
    (s.updateCapacity read write).Heeds s.client := by
  refine (heeds_bound hs).bind fun _ => heeds_describe.bind fun description => ?_
  dsimp only
  split
  · exact heeds_throw _
  split
  · exact heeds_pure ()
  · exact (Client.heeds_retry hs.client (Program.onlySends_ask _)).bind fun _ =>
      Settings.heeds_awaitActiveFor hs _

theorem heeds_updateParameters (hs : s.settings.IsPatient)
    (parameters : Std.ExtTreeMap String String) : (s.updateParameters parameters).Heeds s.client :=
  (heeds_ofResult _).bind fun read => (heeds_ofResult _).bind fun write =>
    heeds_updateCapacity hs read write

/-- A deletion that is interrupted fails as the pause did, and the store is usable again. -/
theorem heeds_destroy (hs : s.settings.IsPatient) : s.destroy.Heeds s.client := by
  refine heeds_known fun m => ?_
  split
  · exact heeds_pure ()
  · refine (heeds_modify _).bind fun _ => Heeds.outcome_bind ?_ (fun result => ?_) fun site m => ?_
    · exact Client.heeds_retry hs.client (Program.onlySends_ask _)
    · split
      · exact Settings.heeds_awaitDeletedFor hs _
      · split
        · exact heeds_pure ()
        · exact (heeds_modify _).bind fun _ => heeds_throw _
    · exact ⟨{ m with destroyed := false }, rfl⟩

theorem heeds_diagnostics : s.diagnostics.Heeds s.client := by
  have hfacts : s.facts.Heeds s.client := by
    refine heeds_known fun m => ?_
    split
    · exact heeds_describe.bind fun _ => heeds_pure _
    · exact heeds_pure _
  rw [diagnostics_eq]
  exact hfacts.bind fun _ => heeds_known fun _ => heeds_pure _

end Store

/-! ## All that a store is asked for -/

theorem Use.heeds_perform {s : Store} (hs : s.settings.IsPatient) (visits : Nat) (u : Use) :
    (u.perform s visits).Heeds s.client := by
  cases u with
  | prepare => exact Store.heeds_prepare hs
  | get path hint => exact Store.heeds_get hs path hint
  | listChildren path => exact Store.heeds_listChildren hs path
  | put e => exact Store.heeds_put hs e
  | putAll es => exact Store.heeds_putAll hs es
  | putListing l => exact Store.heeds_putListing hs l
  | delete path => exact Store.heeds_delete hs path
  | forget path => exact Store.heeds_forget hs path
  | deleteSubtree path => exact Store.heeds_deleteSubtree? hs visits path
  | move deletes creates => exact Store.heeds_move hs deletes creates
  | prune before => exact Store.heeds_prune hs before
  | destroy => exact Store.heeds_destroy hs

theorem Action.heeds_perform {s : Store} (hs : s.settings.IsPatient) (visits : Nat) (a : Action) :
    (a.perform s visits).Heeds s.client := by
  cases a with
  | use u => exact u.heeds_perform hs visits
  | updateCapacity read write => exact Store.heeds_updateCapacity hs read write
  | updateParameters parameters => exact Store.heeds_updateParameters hs parameters
  | diagnostics => exact Store.heeds_diagnostics
  | close => exact heeds_pure ()

/-- **A closed store stops at the first pause of whatever it is asked for**, on any backend and
whatever it remembers. -/
theorem Action.perform_stopsAtFirstPause {s : Store} (hs : s.settings.IsPatient) (visits : Nat)
    (a : Action) (b : Backend σ) (m : Memory) {h : Host σ} {t : Nat} (hclosed : h.closesAt = some t)
    (ht : t ≤ h.elapsed) : (a.perform s visits).StopsAtFirstPause b s.client m h :=
  (a.heeds_perform hs visits).stopsAtFirstPause b m hclosed ht

/-! ## A sample -/

namespace Sample

/-- The store is closed, and the next call of its service is throttled. -/
def closedHost : Host Service :=
  { stage.host.planned { throttles := 1 } with closesAt := some stage.host.elapsed }

/-- A deletion on the closed store ends before it is tried again. -/
theorem stopsAtFirstPause_delete :
    store.settings.IsPatient ∧ closedHost.closesAt = some stage.host.elapsed ∧
      stage.host.elapsed ≤ closedHost.elapsed ∧
      ((Action.use (.delete file)).perform store 0).StopsAtFirstPause Service.backend store.client
        stage.memory closedHost ∧
      ((store.delete file).run Service.backend stage.memory closedHost).outcome =
        .error (.interrupted (store.client.site "Put tombstone" file.text)) := by
  have hs : store.settings.IsPatient := ⟨by decide, by decide, by decide, by decide⟩
  have ht : stage.host.elapsed ≤ closedHost.elapsed := Nat.le_refl _
  exact ⟨hs, rfl, ht, Action.perform_stopsAtFirstPause hs 0 (.use (.delete file)) Service.backend
    stage.memory rfl ht, by decide +kernel⟩

end Sample

end TableTree
