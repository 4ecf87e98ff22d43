import TableTree.Proofs.Activation

/-!
# Binding again after a failure

Binding makes a missing table and writes the version marker in steps, so it may fail with the table
made and no marker in it. The failure is not remembered, and the next use of the store binds again.
It finds a table that it has not made itself, without a marker, and refuses it; only when the table
has been deleted does binding succeed again.

Results:

* `Settings.exists_run_bind_of_missing`: binding makes a missing table and then finishes it.
* `Settings.exists_run_bind_making`: how that ends when no request fails.
* `Settings.run_bind_of_unmarked`: binding refuses a table without a marker.
* `Store.prepare_after_failure`: what is left of a failure, and what becomes of later uses.
-/

namespace TableTree

open Operation

variable {m : Memory} {h : Host Service}

/-! ## A table without a marker -/

namespace Settings

variable {s : Settings}

/-- What the reads of the marker have found decides what the check of it comes to. -/
theorem run_checkMarker {σ : Type} {b : Backend σ} {m₁ : Memory} {h h₁ : Host σ}
    {found : Option Item}
    (hawait : (s.awaitMarker ⟨s.policy, 0⟩).run b m h = ⟨.ok found, m₁, h₁⟩) :
    s.checkMarker.run b m h =
      ⟨(Marker.check s.tableName found).map (⟨false, ·, found.bind Marker.createdAt?⟩), m₁, h₁⟩ := by
  unfold checkMarker
  rw [run_bind_of_ok hawait, run_bind, run_ofResult]
  cases Marker.check s.tableName found <;> rfl

/-- Reading the marker again and again while the table has none. -/
theorem exists_run_awaitMarker {items : Items} (hh : h.IsQuiet)
    (hitems : h.state.items? s.tableName = some items) (hmarker : items.item? Marker.key = none)
    (backoff : Backoff) :
    ∃ h₁, (s.awaitMarker backoff).run Service.backend m h = ⟨.ok none, m, h₁⟩ ∧
      h₁.state.items? s.tableName = some items := by
  -- on the waits that are left
  induction hn : backoff.remaining using Nat.strongRecOn generalizing backoff h with
  | ind n ih =>
    have hread : s.readMarker.run Service.backend m h = ⟨.ok none, m, _⟩ :=
      Client.run_retry_ask (hmarker ▸ hh.state.answer_getItem hitems Marker.key)
    have hh₁ : Host.IsQuiet { h with state := h.state.count (.getItem s.tableName Marker.key) } :=
      hh.set rfl
    rw [awaitMarker, run_bind_of_ok hread]
    dsimp only
    split
    · exact ⟨_, rfl, hitems⟩
    · rename_i duration backoff' hnext
      have hlater := Host.later_sleep (hh₁.sleep_elapsed duration)
      rw [run_bind_of_ok (Client.run_pause (hh₁.sleep_elapsed duration))]
      refine ih _ (hn ▸ Backoff.remaining_lt_of_next? hnext) (hh₁.later hlater) ?_ backoff' rfl
      rw [hlater.state_eq]
      exact hitems

/-- Binding refuses an active table without a marker and leaves it alone. -/
theorem run_bind_of_unmarked {table : Service.Table} (hh : h.IsQuiet)
    (htable : h.state.tables[s.tableName]? = some table)
    (hactive : TableStatus.ofText table.status = .active)
    (hmarker : table.items.item? Marker.key = none) :
    ∃ h₁, s.bind.run Service.backend m h = ⟨.error (.noVersionMarker s.tableName), m, h₁⟩ ∧
      h₁.state.items? s.tableName = some table.items := by
  obtain ⟨d, s₁, hanswer, hstatus, htable', hplan⟩ := Service.exists_answer_describeTable htable
  rw [Service.Table.look_eq hactive] at hstatus htable'
  have hitems : s₁.items? s.tableName = some table.items := by
    rw [Service.items?, htable']
    rfl
  obtain ⟨h₁, hawait, hitems₁⟩ := exists_run_awaitMarker (m := m) (hh.set hplan) hitems hmarker
    ⟨s.policy, 0⟩
  refine ⟨h₁, ?_, hitems₁⟩
  unfold bind
  rw [run_bind_of_ok (run_perform_ask hanswer)]
  dsimp only
  unfold bindTo
  rw [hstatus, hactive]
  exact run_checkMarker hawait

/-! ## A table that is missing -/

/-- Binding makes a missing table, as soon as it has seen that it is missing, and finishes it. -/
theorem exists_run_bind_of_missing (hcreate : s.createTable = true)
    (hmissing : h.state.tables[s.tableName]? = none) :
    ∃ h₁, s.bind.run Service.backend m h = s.finishTable.run Service.backend m h₁ ∧
      h₁.state.tables[s.tableName]? = some ⟨TableStatus.creating.text, {}, s.capacity,
        .ofNat h.state.activationLooks, ∅⟩ ∧
      h₁.state.plan = { h.state.plan with createRaces := h.state.plan.createRaces - 1 } ∧
      h₁.now = h.now ∧ h₁.closesAt = h.closesAt := by
  have hdescribe := Service.answer_describeTable_of_missing hmissing
  obtain ⟨answer, s₁, hanswer, hmade, htable, hplan⟩ := Service.exists_answer_createTable {}
    s.capacity (t := s.tableName) (s := h.state.count (.describeTable s.tableName)) hmissing
  refine ⟨{ h with state := s₁ }, ?_, htable, hplan, rfl, rfl⟩
  unfold bind
  rw [run_bind_of_ok (run_perform_ask hdescribe)]
  dsimp only [Service.notFound]
  rw [if_pos hcreate, makeTable_eq, run_bind_of_ok (run_perform_ask hanswer)]
  rcases hmade with ⟨d, rfl⟩ | ⟨reason, rfl⟩ <;> rfl

/-- Binding to a missing table that it may make succeeds if the service takes fewer looks to make the
table active than binding waits for. The table is active then and holds the marker only. Otherwise
binding gives up, and the table is there without any item. -/
theorem exists_run_bind_making (hfair : h.state.NeverFails)
    (hopen : h.state.activationLooks = 0 ∨ h.closesAt = none) (hcreate : s.createTable = true)
    (hmissing : h.state.tables[s.tableName]? = none) :
    ∃ r h₁ table, s.bind.run Service.backend m h = ⟨r, m, h₁⟩ ∧
      h₁.state.tables[s.tableName]? = some table ∧ table.capacity = s.capacity ∧
      (h.state.activationLooks < s.tableWaitMaxPolls.toNat ∧
          r = .ok ⟨true, Marker.current, some h.now⟩ ∧
          TableStatus.ofText table.status = .active ∧ table.items = madeItems h.now ∨
        s.tableWaitMaxPolls.toNat ≤ h.state.activationLooks ∧
          r = .error (s.unavailable s!"table is not active after {s.tableWaitMaxPolls} polls") ∧
          table.items = ∅) := by
  obtain ⟨h₁, hbind, htable, hplan, hnow, hclosesAt⟩ :=
    exists_run_bind_of_missing (m := m) hcreate hmissing
  have hfair₁ : h₁.state.NeverFails := by
    refine ⟨?_, ?_⟩
    · rw [hplan, ← hfair.throttles]
    · rw [hplan, ← hfair.faults]
  have hpolls : s.tableWaitMaxPolls.toNat < UInt64.size := by
    have := s.tableWaitMaxPolls.toNat_lt
    simp only [UInt64.size]
    omega
  have hwithin {looks : Nat} (hlooks : looks < UInt64.size) :=
    Service.Table.activeWithin_of_ofNat (t := ⟨TableStatus.creating.text, {}, s.capacity,
      .ofNat h.state.activationLooks, ∅⟩) rfl rfl hlooks
  have hopen₁ := hopen.imp (fun hnone => (hwithin (by decide : 1 < UInt64.size)).2 (by omega))
    hclosesAt.trans
  obtain ⟨r, h₂, n, hfinish, hended⟩ := exists_run_finishTable (m := m) hfair₁ hopen₁ htable rfl
  have hcapacity := Service.Table.capacity_lookTimes (⟨TableStatus.creating.text, {}, s.capacity,
    .ofNat h.state.activationLooks, ∅⟩ : Service.Table) n
  rw [hbind, hfinish]
  rw [hwithin hpolls, hnow] at hended
  obtain ⟨hlooks, rfl, hactive, hfound⟩ | ⟨hlooks, rfl, hfound⟩ := hended
  · exact ⟨_, _, _, rfl, hfound, hcapacity, .inl ⟨hlooks, rfl, hactive, rfl⟩⟩
  · refine ⟨_, _, _, rfl, hfound, hcapacity, .inr ⟨Nat.le_of_not_lt hlooks, rfl, ?_⟩⟩
    exact Service.Table.items_lookTimes ..

theorem remembers_describe : s.describe.Remembers := Client.remembers_retry

theorem remembers_awaitActiveFor (looks : Nat) : (s.awaitActiveFor looks).Remembers := by
  induction looks with
  | zero => exact (idle_throw _).remembers
  | succ looks ih =>
    refine remembers_describe.bind fun description => ?_
    split
    · exact (idle_pure ()).remembers
    · exact (idle_throw _).remembers
    · exact (Client.idle_pause _).remembers.bind fun _ => ih

theorem remembers_awaitDeletedFor (looks : Nat) : (s.awaitDeletedFor looks).Remembers := by
  induction looks with
  | zero => exact (idle_throw _).remembers
  | succ looks ih =>
    refine remembers_describe.outcome.bind fun result => ?_
    split
    · exact (Client.idle_pause _).remembers.bind fun _ => ih
    · split
      · exact (idle_pure ()).remembers
      · exact (idle_throw _).remembers

theorem remembers_finishTable : s.finishTable.Remembers :=
  (remembers_awaitActiveFor _).bind fun _ => (remembers_perform _).bind fun _ =>
    Client.remembers_retry.bind fun _ => (idle_pure _).remembers

theorem remembers_awaitMarker (backoff : Backoff) : (s.awaitMarker backoff).Remembers := by
  -- on the waits that are left
  induction hn : backoff.remaining using Nat.strongRecOn generalizing backoff with
  | ind n ih =>
    rw [awaitMarker]
    refine Client.remembers_retry.bind fun marker => ?_
    split
    · exact (idle_pure _).remembers
    · split
      · exact (idle_pure _).remembers
      · rename_i duration backoff' hnext
        refine (Client.idle_pause _).remembers.bind fun _ => ?_
        exact ih _ (hn ▸ Backoff.remaining_lt_of_next? hnext) backoff' rfl

theorem remembers_checkMarker : s.checkMarker.Remembers :=
  (remembers_awaitMarker _).bind fun _ => Remembers.bind (fun _ _ m _ => .refl m) fun _ =>
    (idle_pure _).remembers

theorem remembers_bindTo (description : TableDescription) : (s.bindTo description).Remembers := by
  unfold bindTo
  split
  · exact (remembers_awaitActiveFor _).bind fun _ => remembers_checkMarker
  · exact (idle_throw _).remembers
  · exact (idle_throw _).remembers
  · exact remembers_checkMarker
  · exact remembers_checkMarker

/-- Binding leaves what the store knows to the store. -/
theorem remembers_bind : s.bind.Remembers := by
  unfold bind
  refine (remembers_perform _).bind fun answer => ?_
  split
  · exact remembers_bindTo _
  · split
    · rw [makeTable_eq]
      refine (remembers_perform _).bind fun answer => ?_
      split
      · exact remembers_finishTable
      · exact remembers_finishTable
      · exact (idle_throw _).remembers
    · exact (idle_throw _).remembers
  · exact (idle_throw _).remembers

end Settings

/-! ## Later uses of a store -/

namespace Store

/-- The memory of a store that is not bound to a table and has not destroyed one. -/
def IsUnbound (m : Memory) : Prop := m.binding = none ∧ m.destroyed = false

theorem IsUnbound.alike {m' : Memory} (hm : IsUnbound m) (halike : m.Alike m') : IsUnbound m' :=
  ⟨halike.binding_eq.trans hm.1, halike.destroyed_eq.trans hm.2⟩

/-- An unbound store binds when it is prepared, and remembers the binding unless that fails. -/
theorem run_prepare {s : Store} (hm : IsUnbound m) :
    s.prepare.run Service.backend m h =
      match s.settings.bind.run Service.backend m h with
      | ⟨.ok binding, m₁, h₁⟩ => ⟨.ok (), { m₁ with binding := some binding }, h₁⟩
      | ⟨.error e, m₁, h₁⟩ => ⟨.error e, m₁, h₁⟩ := by
  obtain ⟨hbinding, hdestroyed⟩ := hm
  have hbound : s.bound.run Service.backend m h = (do
      let binding ← s.settings.bind
      modify fun m => { m with binding := some binding }
      pure binding : Operation Binding).run Service.backend m h := by
    unfold bound
    rw [run_bind, show (getThe Memory : Operation Memory).run Service.backend m h = ⟨.ok m, m, h⟩
      from rfl]
    dsimp only [Run.andThen]
    rw [hdestroyed, hbinding]
    rfl
  unfold prepare
  rw [run_bind, hbound, run_bind]
  rcases s.settings.bind.run Service.backend m h with ⟨_ | binding, m₁, h₁⟩ <;> rfl

/-- What is left when making a missing table has failed: the table without any item, and nothing in
the memory. -/
theorem unmarked_of_prepare_error {s : Store} {e : StoreError} (hm : IsUnbound m)
    (hcreate : s.settings.createTable = true) (hcalm : h.state.IsCalm)
    (hmissing : h.state.tables[s.table]? = none)
    (hfailed : (s.prepare.run Service.backend m h).outcome = .error e) :
    IsUnbound (s.prepare.run Service.backend m h).memory ∧
      (s.prepare.run Service.backend m h).host.state.items? s.table = some ∅ := by
  obtain ⟨h₁, hbind, htable, hplan, -, -⟩ :=
    Settings.exists_run_bind_of_missing (m := m) hcreate hmissing
  have hitems : h₁.state.items? s.table = some ∅ := by
    rw [Service.items?, show h₁.state.tables[s.table]? = _ from htable]
    rfl
  have hcalm₁ : h₁.state.IsCalm := by
    rw [Service.IsCalm, hplan]
    exact hcalm
  have hfinish : s.settings.finishTable.Always (tableWorld s.table h₁.now) m
      (h₁.state.items? s.table) _ := Settings.always_finishTable fun _ => hitems
  have hends := (hfinish.run (Service.within_tableWorld s.table h₁.now) hcalm₁ rfl).1
  rw [run_prepare hm, hbind] at hfailed ⊢
  rcases hrun : s.settings.finishTable.run Service.backend m h₁ with ⟨_ | binding, m₂, h₂⟩
  · rw [hrun] at hends
    exact ⟨hm.alike (Settings.remembers_finishTable.alike hrun), hends.trans hitems⟩
  · rw [hrun] at hfailed
    cases hfailed

theorem prepare_of_unmarked {s : Store} {table : Service.Table} (hm : IsUnbound m)
    (hh : h.IsQuiet) (htable : h.state.tables[s.table]? = some table) (hitems : table.items = ∅)
    (hactive : TableStatus.ofText table.status = .active) :
    (s.prepare.run Service.backend m h).outcome = .error (.noVersionMarker s.table) ∧
      IsUnbound (s.prepare.run Service.backend m h).memory ∧
      (s.prepare.run Service.backend m h).host.state.items? s.table = some ∅ := by
  have hmarker : table.items.item? Marker.key = none := by
    rw [hitems]
    simp [Items.item?]
  obtain ⟨h₁, hbind, hitems₁⟩ := Settings.run_bind_of_unmarked (m := m) hh htable hactive hmarker
  rw [run_prepare hm, hbind]
  exact ⟨rfl, hm, hitems ▸ hitems₁⟩

theorem prepare_of_missing {s : Store} (hm : IsUnbound m) (hcreate : s.settings.createTable = true)
    (hh : h.IsQuiet) (hmissing : h.state.tables[s.table]? = none)
    (hlooks : h.state.activationLooks < s.settings.tableWaitMaxPolls.toNat) :
    (s.prepare.run Service.backend m h).outcome = .ok () ∧
      (s.prepare.run Service.backend m h).host.state.items? s.table =
        some (Settings.madeItems h.now) := by
  obtain ⟨r, h₁, table, hbind, htable, -, hended⟩ :=
    Settings.exists_run_bind_making (m := m) hh.state.neverFails (.inr hh.closesAt) hcreate hmissing
  obtain ⟨-, rfl, -, hitems⟩ | ⟨hlate, -⟩ := hended
  · rw [run_prepare hm, hbind]
    refine ⟨rfl, ?_⟩
    show h₁.state.items? s.table = _
    rw [Service.items?, show h₁.state.tables[s.table]? = _ from htable, Option.map_some, hitems]
  · exact absurd hlooks (Nat.not_lt.2 hlate)

/-- **Binding again after a failure.** Suppose the first use of a store finds its table missing and
fails. The failure is not remembered, and has left the table made, without any item. As long as the
table stays like this, every later use of this store or another one of the same table binds again
once the table is active, and refuses it for its missing version marker, though nothing goes wrong
any more. When the table has been deleted, a later use makes it anew and binds to it. -/
theorem prepare_after_failure {s : Store} {e : StoreError} (hm : IsUnbound m)
    (hcreate : s.settings.createTable = true) (hcalm : h.state.IsCalm)
    (hmissing : h.state.tables[s.table]? = none)
    (hfailed : (s.prepare.run Service.backend m h).outcome = .error e) :
    let failed := s.prepare.run Service.backend m h
    IsUnbound failed.memory ∧ failed.host.state.items? s.table = some ∅ ∧
      (∀ (s' : Store) (m' : Memory) (k : Host Service) (table : Service.Table),
        s'.table = s.table → IsUnbound m' → k.IsQuiet → k.state.tables[s.table]? = some table →
        table.items = ∅ → TableStatus.ofText table.status = .active →
        let later := s'.prepare.run Service.backend m' k
        later.outcome = .error (.noVersionMarker s.table) ∧ IsUnbound later.memory ∧
          later.host.state.items? s.table = some ∅) ∧
      ∀ (s' : Store) (m' : Memory) (k : Host Service),
        s'.table = s.table → IsUnbound m' → s'.settings.createTable = true → k.IsQuiet →
        k.state.tables[s.table]? = none →
        k.state.activationLooks < s'.settings.tableWaitMaxPolls.toNat →
        let later := s'.prepare.run Service.backend m' k
        later.outcome = .ok () ∧
          later.host.state.items? s.table = some (Settings.madeItems k.now) := by
  obtain ⟨hunbound, hitems⟩ := unmarked_of_prepare_error hm hcreate hcalm hmissing hfailed
  refine ⟨hunbound, hitems, ?_, ?_⟩
  · intro s' m' k table hs hm' hk htable hitems hactive
    rw [← hs] at htable ⊢
    exact prepare_of_unmarked hm' hk htable hitems hactive
  · intro s' m' k hs hm' hcreate' hk hmissing' hlooks
    rw [← hs] at hmissing' ⊢
    exact prepare_of_missing hm' hcreate' hk hmissing' hlooks

end Store

/-! ## A sample -/

namespace Sample

/-- A store that makes its table and tries requests twice at most. -/
def hasty : Store :=
  ⟨{ tableName := "meta", region := "local", createTable := true, maxRetries := 1 }⟩

/-- Its first use. Both tries to write the version marker fail. -/
def failed : Operation.Run Service Unit :=
  hasty.prepare.run Service.backend {} { host with state := host.state.planFaults 2 }

/-- The service after the table of the store has been deleted. -/
def deleted : Service := (failed.host.state.answer (.deleteTable hasty.table)).2

theorem isQuiet_failed : failed.host.IsQuiet :=
  ⟨⟨by decide +kernel, by decide +kernel, List.isEmpty_iff.1 (by decide +kernel)⟩,
    by decide +kernel⟩

theorem isQuiet_deleted : Host.IsQuiet { failed.host with state := deleted } :=
  ⟨⟨by decide +kernel, by decide +kernel, List.isEmpty_iff.1 (by decide +kernel)⟩,
    by decide +kernel⟩

/-- The store is used again, and anew after its table was deleted. -/
theorem prepare_after_failure_faults :
    host.state.tables[hasty.table]? = none ∧ (∃ e, failed.outcome = .error e) ∧
      failed.host.state.items? hasty.table = some ∅ ∧
      (hasty.prepare.run Service.backend failed.memory failed.host).outcome =
        .error (.noVersionMarker hasty.table) ∧
      (hasty.prepare.run Service.backend {} { failed.host with state := deleted }).outcome = .ok () ∧
      (hasty.prepare.run Service.backend {} { failed.host with state := deleted }).host.state.items?
        hasty.table = some (Settings.madeItems failed.host.now) := by
  have hfailed : ∃ e, failed.outcome = .error e := by
    cases hr : failed.outcome with
    | error e => exact ⟨e, rfl⟩
    | ok _ => exact absurd (show failed.outcome = .ok () from hr) (by decide +kernel)
  obtain ⟨e, he⟩ := hfailed
  obtain ⟨hunbound, hitems, hactive, hmissing⟩ := Store.prepare_after_failure (m := {})
    (h := { host with state := host.state.planFaults 2 }) (s := hasty) ⟨rfl, rfl⟩ rfl rfl rfl he
  obtain ⟨table, htable, hempty⟩ := Option.map_eq_some_iff.1 hitems
  have hstatus : (failed.host.state.tables[hasty.table]?.map (·.status)) = some "ACTIVE" := by
    decide +kernel
  rw [show failed.host.state.tables[hasty.table]? = _ from htable, Option.map_some,
    Option.some.injEq] at hstatus
  have hdeleted : deleted.tables[hasty.table]?.isSome = false := by decide +kernel
  have hagain := hactive hasty failed.memory failed.host table rfl hunbound isQuiet_failed htable
    hempty (congrArg TableStatus.ofText hstatus)
  have hanew := hmissing hasty {} { failed.host with state := deleted } rfl ⟨rfl, rfl⟩ rfl
    isQuiet_deleted (Option.not_isSome_iff_eq_none.1 (by simp [hdeleted])) (by decide +kernel)
  exact ⟨rfl, ⟨e, he⟩, hitems, hagain.1, hanew⟩

/-- Both tries to write the marker have failed, nothing is going to fail any more, and the table is
active; still neither this store nor a new one can be used. -/
theorem not_ok_prepare_failed :
    hasty.settings.check = .ok () ∧ hasty.settings.createTable = true ∧
      1 ≤ hasty.settings.tableWaitMaxPolls ∧
      host.state.tables[hasty.table]?.isSome = false ∧ failed.outcome ≠ .ok () ∧
      failed.host.state.plan.throttles = 0 ∧ failed.host.state.plan.faults = 0 ∧
      (failed.host.state.tables[hasty.table]?.map (·.status)) = some TableStatus.active.text ∧
      (hasty.prepare.run Service.backend failed.memory failed.host).outcome ≠ .ok () ∧
      (hasty.prepare.run Service.backend {} failed.host).outcome ≠ .ok () ∧
      ((hasty.prepare.run Service.backend failed.memory failed.host).host.state.getRaw hasty.table
        Marker.key).isSome = false := by
  decide +kernel

end Sample

end TableTree
