import TableTree.Proofs.Destruction

/-!
# Changes of tables that are complete at once

A service may complete a change of a table with the request for it: the table that was to be deleted
is gone, and the table that was to be made is active at the first look. A store still looks at the
table before it reports the change, and the settings bound the looks. They may allow none. Then the
change is made, and reported as one that has failed.

Results:

* `Store.exists_run_deleting`: what the request to delete a table comes to.
* `Store.exists_run_settle_ok`: how the wait for a table that is gone ends.
* `Store.destroy_cases`, `Store.prepare_cases`: what becomes of the table, and what is reported.
* `Store.completed_changes`: when completed changes are reported as such.
-/

namespace TableTree

open Operation

variable {m : Memory} {h : Host Service}

/-! ## Deleting a table -/

namespace Service

variable {s : Service} {t : String}

/-- A table that is there is deleted. -/
theorem exists_answer_deleteTable {table : Table} (h : s.tables[t]? = some table) :
    ∃ s₁, s.answer (.deleteTable t) = (.ok (), s₁) ∧ s₁.tables[t]? = none := by
  have hcontains : (s.count (.deleteTable t)).tables.contains t = true := by
    rw [(s.sameTables_count _).tables, Std.ExtTreeMap.contains_eq_isSome_getElem?, h]
    rfl
  show ∃ s₁, deleteTable (s.count (.deleteTable t)) t = (.ok (), s₁) ∧ _
  unfold deleteTable
  rw [if_pos hcontains]
  exact ⟨_, rfl, by simp⟩

theorem answer_deleteTable_of_missing (h : s.tables[t]? = none) :
    s.answer (.deleteTable t) = (.error (notFound t), s.count (.deleteTable t)) := by
  have hcontains : ¬ (s.count (.deleteTable t)).tables.contains t = true := by
    rw [(s.sameTables_count _).tables, Std.ExtTreeMap.contains_eq_isSome_getElem?, h]
    nofun
  show deleteTable (s.count (.deleteTable t)) t = _
  unfold deleteTable
  rw [if_neg hcontains]

end Service

namespace Store

variable {s : Store}

/-- The request to delete the table leaves none. It is granted if there was one, and is refused for
want of one otherwise. -/
theorem exists_run_deleting (s : Store) (m : Memory) (h : Host Service) :
    ∃ r h₁, s.deleting.run Service.backend m h = ⟨r, m, h₁⟩ ∧
      h₁.state.tables[s.table]? = none ∧
      (h.state.tables[s.table]? ≠ none ∧ r = .ok () ∨
        h.state.tables[s.table]? = none ∧ ∃ e, r = .error e ∧ e.kind = .notFound) := by
  cases hfound : h.state.tables[s.table]? with
  | none =>
    have hanswer := Service.answer_deleteTable_of_missing hfound
    refine ⟨_, _, Client.run_retry_ask_of_isPermanent hanswer rfl, hfound, .inr ⟨rfl, _, rfl, rfl⟩⟩
  | some table =>
    obtain ⟨s₁, hanswer, hgone⟩ := Service.exists_answer_deleteTable hfound
    exact ⟨_, _, Client.run_retry_ask hanswer, hgone, .inl ⟨nofun, rfl⟩⟩

/-- The wait for a table that is gone ends with the first look, if there is one. -/
theorem exists_run_settle_ok (hmissing : h.state.tables[s.table]? = none) :
    ∃ r h₁, (s.settle (.ok ())).run Service.backend m h = ⟨r, m, h₁⟩ ∧
      h₁.state.tables[s.table]? = none ∧
      (s.settings.tableWaitMaxPolls ≠ 0 ∧ r = .ok () ∨
        s.settings.tableWaitMaxPolls = 0 ∧
          r = .error (s.settings.unavailable "table still exists after 0 polls")) := by
  show ∃ r h₁, (s.settings.awaitDeletedFor s.settings.tableWaitMaxPolls.toNat).run
    Service.backend m h = ⟨r, m, h₁⟩ ∧ _
  cases hpolls : s.settings.tableWaitMaxPolls.toNat with
  | zero =>
    have hzero : s.settings.tableWaitMaxPolls = 0 := UInt32.toNat_inj.1 hpolls
    refine ⟨_, h, rfl, hmissing, .inr ⟨hzero, ?_⟩⟩
    rw [hzero]
    rfl
  | succ looks =>
    have hsome : s.settings.tableWaitMaxPolls ≠ 0 := by
      intro hzero
      rw [hzero] at hpolls
      cases hpolls
    have hanswer := Service.answer_describeTable_of_missing hmissing
    have hdescribe : s.settings.describe.run Service.backend m h = ⟨.error _, m, _⟩ :=
      Client.run_retry_ask_of_isPermanent hanswer rfl
    rw [Settings.awaitDeletedFor, run_bind, run_outcome, hdescribe]
    exact ⟨_, _, rfl, hmissing, .inl ⟨hsome, rfl⟩⟩

/-- Destroying leaves no table. It succeeds if there was none, or if the settings allow a look to see
it gone. -/
theorem destroy_cases (hm : m.destroyed = false) :
    (s.destroy.run Service.backend m h).host.state.tables[s.table]? = none ∧
      ((s.settings.tableWaitMaxPolls ≠ 0 ∨ h.state.tables[s.table]? = none) ∧
          (s.destroy.run Service.backend m h).outcome = .ok () ∨
        ¬ (s.settings.tableWaitMaxPolls ≠ 0 ∨ h.state.tables[s.table]? = none) ∧
          (s.destroy.run Service.backend m h).outcome =
            .error (s.settings.unavailable "table still exists after 0 polls")) := by
  obtain ⟨r, m₁, h₁, hdelete, -, hrun, -⟩ := exists_run_destroy Service.backend s h hm
  obtain ⟨r', h', hdelete', hgone, hgranted⟩ := exists_run_deleting s { m with destroyed := true } h
  obtain ⟨rfl, rfl, rfl⟩ := Run.mk.inj (hdelete.symm.trans hdelete')
  rw [hrun]
  obtain ⟨hfound, rfl⟩ | ⟨hmissing, e, rfl, he⟩ := hgranted
  · obtain ⟨r, h₂, hsettle, hgone₂, hlooks⟩ :=
      exists_run_settle_ok (m := { m with destroyed := true }) hgone
    rw [hsettle]
    refine ⟨hgone₂, hlooks.imp ?_ ?_⟩
    · rintro ⟨hpolls, rfl⟩
      exact ⟨.inl hpolls, rfl⟩
    · rintro ⟨hpolls, rfl⟩
      exact ⟨fun hnot => hnot.elim (absurd hpolls) hfound, rfl⟩
  · rw [run_settle_of_notFound he]
    exact ⟨hgone, .inl ⟨.inr hmissing, rfl⟩⟩

/-! ## Making a table -/

/-- A store that finds its table missing and may make it leaves it active and with its marker, if the
settings allow a look to see it active. Otherwise it leaves it without any item. -/
theorem prepare_cases (hm : IsUnbound m) (hcreate : s.settings.createTable = true)
    (hfair : h.state.NeverFails) (hlooks : h.state.activationLooks = 0)
    (hmissing : h.state.tables[s.table]? = none) :
    ∃ table, (s.prepare.run Service.backend m h).host.state.tables[s.table]? = some table ∧
      table.capacity = s.settings.capacity ∧
      (s.settings.tableWaitMaxPolls ≠ 0 ∧ (s.prepare.run Service.backend m h).outcome = .ok () ∧
          TableStatus.ofText table.status = .active ∧ table.items = Settings.madeItems h.now ∨
        s.settings.tableWaitMaxPolls = 0 ∧
          (s.prepare.run Service.backend m h).outcome =
            .error (s.settings.unavailable "table is not active after 0 polls") ∧
          table.items = ∅) := by
  obtain ⟨r, h₁, table, hbind, htable, hcapacity, hended⟩ :=
    Settings.exists_run_bind_making (m := m) hfair (.inl hlooks) hcreate hmissing
  rw [hlooks, Nat.pos_iff_ne_zero, Nat.le_zero] at hended
  have hzero : s.settings.tableWaitMaxPolls.toNat = 0 ↔ s.settings.tableWaitMaxPolls = 0 :=
    UInt32.toNat_inj (b := 0)
  rw [run_prepare hm, hbind]
  obtain ⟨hpolls, rfl, hactive, hitems⟩ | ⟨hpolls, rfl, hitems⟩ := hended
  · exact ⟨table, htable, hcapacity, .inl ⟨mt hzero.2 hpolls, rfl, hactive, hitems⟩⟩
  · refine ⟨table, htable, hcapacity, .inr ⟨hzero.1 hpolls, ?_, hitems⟩⟩
    rw [hzero.1 hpolls]
    rfl

/-- **Changes that are complete at once.** The service makes tables active at the first look, and no
request fails. Then a store that is destroyed for the first time leaves no table of its name, and a
store that may make its missing table leaves one, with its capacity. The store reports the change as
done exactly if its settings allow a look at the table, or if there was no table to delete, and only
then the table that it has made is sure to be active and to hold the marker. Settings that allow no
look are accepted, but with them a complete change is reported as a failure. -/
theorem completed_changes (hfair : h.state.NeverFails) (hlooks : h.state.activationLooks = 0) :
    (m.destroyed = false →
      let run := s.destroy.run Service.backend m h
      run.host.state.tables[s.table]? = none ∧
        (run.outcome = .ok () ↔
          s.settings.tableWaitMaxPolls ≠ 0 ∨ h.state.tables[s.table]? = none) ∧
        ∀ e, run.outcome = .error e →
          e = s.settings.unavailable "table still exists after 0 polls") ∧
      (IsUnbound m → s.settings.createTable = true → h.state.tables[s.table]? = none →
        let run := s.prepare.run Service.backend m h
        (run.outcome = .ok () ↔ s.settings.tableWaitMaxPolls ≠ 0) ∧
          (∀ e, run.outcome = .error e →
            e = s.settings.unavailable "table is not active after 0 polls") ∧
          ∃ table, run.host.state.tables[s.table]? = some table ∧
            table.capacity = s.settings.capacity ∧
            (run.outcome = .ok () → TableStatus.ofText table.status = .active ∧
              table.items = Settings.madeItems h.now)) := by
  refine ⟨fun hm => ?_, fun hm hcreate hmissing => ?_⟩
  · dsimp only
    obtain ⟨hgone, ⟨hreported, hok⟩ | ⟨hnot, herror⟩⟩ := destroy_cases (s := s) (h := h) hm
    · rw [hok]
      exact ⟨hgone, ⟨fun _ => hreported, fun _ => rfl⟩, nofun⟩
    · rw [herror]
      exact ⟨hgone, ⟨nofun, fun hreported => absurd hreported hnot⟩, fun _ he => by cases he; rfl⟩
  · dsimp only
    obtain ⟨table, htable, hcapacity, ⟨hpolls, hok, hactive⟩ | ⟨hpolls, herror, -⟩⟩ :=
      prepare_cases hm hcreate hfair hlooks hmissing
    · rw [hok]
      exact ⟨⟨fun _ => hpolls, fun _ => rfl⟩, nofun, table, htable, hcapacity, fun _ => hactive⟩
    · rw [herror]
      exact ⟨⟨nofun, fun hsome => absurd hpolls hsome⟩, fun _ he => by cases he; rfl, table, htable,
        hcapacity, nofun⟩

end Store

/-! ## A sample -/

namespace Sample

/-- A store whose settings allow no look at a table that is waited for. -/
def blind : Store := ⟨{ store.settings with tableWaitMaxPolls := 0 }⟩

/-- One store makes its missing table, and destroys the one that it has made. -/
theorem completed_changes_meta :
    (store.prepare.run Service.backend {} host).outcome = .ok () ∧
      (∃ table, (store.prepare.run Service.backend {} host).host.state.tables[store.table]? =
        some table ∧ table.items = Settings.madeItems host.now) ∧
      (store.destroy.run Service.backend stage.memory stage.host).outcome = .ok () ∧
      (store.destroy.run Service.backend stage.memory stage.host).host.state.tables[store.table]? =
        none := by
  obtain ⟨hreported, -, table, htable, -, hmade⟩ := (Store.completed_changes (s := store) (m := {})
    (h := host) ⟨rfl, rfl⟩ rfl).2 ⟨rfl, rfl⟩ rfl rfl
  have hok := hreported.2 (by decide)
  have hfair : stage.host.state.NeverFails := ⟨by decide +kernel, by decide +kernel⟩
  obtain ⟨hgone, hdone, -⟩ := (Store.completed_changes (s := store) (m := stage.memory)
    (h := stage.host) hfair (by decide +kernel)).1 (by decide +kernel)
  exact ⟨hok, ⟨table, htable, (hmade hok).2⟩, hdone.2 (.inl (by decide)), hgone⟩

/-- The settings of the blind store are accepted, and nothing fails. Its table is gone when it has
failed to destroy it, and active at the next look when it has failed to make it. -/
theorem not_ok_destroy_blind :
    blind.settings.check = .ok () ∧ blind.settings.createTable = true ∧
      stage.host.state.activationLooks = 0 ∧ stage.host.state.plan.throttles = 0 ∧
      stage.host.state.plan.faults = 0 ∧
      stage.host.state.tables[blind.table]?.isSome = true ∧
      (blind.destroy.run Service.backend {} stage.host).outcome =
        .error (blind.settings.unavailable "table still exists after 0 polls") ∧
      (blind.destroy.run Service.backend {} stage.host).host.state.tables[blind.table]?.isSome =
        false ∧
      host.state.activationLooks = 0 ∧ host.state.tables[blind.table]?.isSome = false ∧
      (blind.prepare.run Service.backend {} host).outcome =
        .error (blind.settings.unavailable "table is not active after 0 polls") ∧
      ((blind.prepare.run Service.backend {} host).host.state.tables[blind.table]?.map
        fun table => (table.look.status, table.items.size)) = some ("ACTIVE", 0) := by
  decide +kernel

end Sample

end TableTree
