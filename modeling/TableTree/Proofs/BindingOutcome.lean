import TableTree.Proofs.VersionGate

/-!
# The outcome of binding

Binding and the service move on together: every look at a table that is being made brings it closer
to being active, and binding gives up after so many looks. When no request fails and nobody else
writes, the state of the service alone decides how binding ends.

Results:

* `Settings.verdict`: what the items of a table say about binding to it.
* `Settings.IsReady`: tables whose marker binding comes to check.
* `Settings.outcome_bind_of_found`: how binding to a table that is there ends.
* `Settings.bind_outcome`: how binding ends on any service, and what it leaves of the table.
-/

namespace TableTree

open Operation

variable {m : Memory} {h : Host Service}

namespace Settings

variable {s : Settings} {items : Items} {table : Service.Table}

/-! ## The check of the marker -/

/-- What binding to a table comes to when its items are found and checked. -/
def verdict (s : Settings) (items : Items) : Except StoreError Binding :=
  (Marker.check s.tableName (items.item? Marker.key)).map
    (⟨false, ·, (items.item? Marker.key).bind Marker.createdAt?⟩)

/-- The check succeeds if the marker holds the current version. -/
theorem verdict_of_current (hversion : items.version? = some Marker.current) :
    s.verdict items =
      .ok ⟨false, Marker.current, (items.item? Marker.key).bind Marker.createdAt?⟩ := by
  obtain ⟨marker, hmarker, hlong⟩ := Option.bind_eq_some_iff.1 hversion
  have hholds : Marker.version marker = .ok Marker.current := by
    rw [Marker.version, hlong]
  rw [verdict, hmarker, Marker.check_of_version hholds]
  rfl

/-- The check fails unless the marker holds the current version. -/
theorem exists_verdict_eq_error (hversion : items.version? ≠ some Marker.current) :
    ∃ e, s.verdict items = .error e := by
  unfold verdict
  cases hmarker : items.item? Marker.key with
  | none => exact ⟨_, rfl⟩
  | some marker =>
    rw [Items.version?, hmarker] at hversion
    obtain ⟨e, he⟩ := exists_check_eq_error s.tableName hversion
    exact ⟨e, by rw [he]; rfl⟩

/-- The check is of the items that the table holds, whether the marker is among them or missed. -/
theorem exists_run_checkMarker (hh : h.IsQuiet)
    (hitems : h.state.items? s.tableName = some items) :
    ∃ h₁, s.checkMarker.run Service.backend m h = ⟨s.verdict items, m, h₁⟩ := by
  have hawait : ∃ h₁, (s.awaitMarker ⟨s.policy, 0⟩).run Service.backend m h =
      ⟨.ok (items.item? Marker.key), m, h₁⟩ := by
    cases hmarker : items.item? Marker.key with
    | none =>
      obtain ⟨h₁, hrun, -⟩ := exists_run_awaitMarker hh hitems hmarker ⟨s.policy, 0⟩
      exact ⟨h₁, hrun⟩
    | some marker =>
      have hread : s.readMarker.run Service.backend m h = ⟨.ok (some marker), m, _⟩ :=
        Client.run_retry_ask (hmarker ▸ hh.state.answer_getItem hitems Marker.key)
      rw [awaitMarker, run_bind_of_ok hread]
      exact ⟨_, rfl⟩
  obtain ⟨h₁, hrun⟩ := hawait
  exact ⟨h₁, run_checkMarker hrun⟩

/-! ## A table that is there -/

/-- Binding comes to check the marker of the table: the table is active or being changed, or is being
made and becomes active with the first look of binding or with those that it waits for. -/
def IsReady (s : Settings) (table : Service.Table) : Prop :=
  match TableStatus.ofText table.status with
  | .active | .updating => True
  | .creating => table.ActiveWithin (s.tableWaitMaxPolls.toNat + 1)
  | .deleting | .unrecognized _ => False

/-- Binding to a table that is there goes by the status that its first look reports. -/
theorem exists_run_bind_of_look (hh : h.IsQuiet)
    (htable : h.state.tables[s.tableName]? = some table) :
    ∃ d h₁, s.bind.run Service.backend m h = (s.bindTo d).run Service.backend m h₁ ∧
      s.bind.exchanges Service.backend m h =
        ⟨.describeTable s.tableName, .ok d⟩ :: (s.bindTo d).exchanges Service.backend m h₁ ∧
      d.tableStatus = TableStatus.ofText table.look.status ∧ h₁.IsQuiet ∧
      h₁.state.tables[s.tableName]? = some table.look := by
  obtain ⟨d, s₁, hanswer, hstatus, hlook, hplan⟩ := Service.exists_answer_describeTable htable
  have hfirst : (perform (.ask (.describeTable s.tableName))).run Service.backend m h =
      ⟨.ok (.ok d), m, { h with state := s₁ }⟩ := run_perform_ask hanswer
  have hsent : (Program.ask (.describeTable s.tableName)).exchanges Service.backend h =
      [⟨.describeTable s.tableName, (h.state.answer (.describeTable s.tableName)).1⟩] := rfl
  refine ⟨d, { h with state := s₁ }, ?_, ?_, hstatus, hh.set hplan, hlook⟩
  · unfold bind
    rw [run_bind_of_ok hfirst]
  · unfold bind
    rw [exchanges_bind_of_ok hfirst, exchanges_perform, hsent, hanswer]
    rfl

/-- Binding fails with its first look at a table whose status it refuses. -/
theorem bind_of_refused {e : StoreError} (hh : h.IsQuiet)
    (htable : h.state.tables[s.tableName]? = some table) (hlook : table.look = table)
    (hrefused : ∀ d : TableDescription, d.tableStatus = TableStatus.ofText table.status →
      (s.bindTo d).EndsAtOnce m (.error e)) :
    (s.bind.run Service.backend m h).outcome = .error e ∧
      (s.bind.exchanges Service.backend m h).map Sigma.fst = [.describeTable s.tableName] := by
  obtain ⟨d, h₁, hbind, hsent, hstatus, -⟩ := exists_run_bind_of_look (m := m) hh htable
  have hends := hrefused d (hlook ▸ hstatus)
  rw [hbind, hends.run, hsent, hends.exchanges]
  exact ⟨rfl, rfl⟩

/-- A table that is being deleted is refused. -/
theorem bind_of_deleting (hh : h.IsQuiet) (htable : h.state.tables[s.tableName]? = some table)
    (hstatus : TableStatus.ofText table.status = .deleting) :
    (s.bind.run Service.backend m h).outcome = .error (s.unavailable "table is being deleted") ∧
      (s.bind.exchanges Service.backend m h).map Sigma.fst = [.describeTable s.tableName] := by
  refine bind_of_refused hh htable ?_ fun d hd => ?_
  · exact Service.Table.look_eq_self (by rw [hstatus]; nofun) (by rw [hstatus]; nofun)
  · rw [bindTo, hd, hstatus]
    rfl

/-- A table with a status that is not known is refused. -/
theorem bind_of_unrecognized {text : String} (hh : h.IsQuiet)
    (htable : h.state.tables[s.tableName]? = some table)
    (hstatus : TableStatus.ofText table.status = .unrecognized text) :
    (s.bind.run Service.backend m h).outcome =
        .error (s.unavailable s!"Unknown table status {text}") ∧
      (s.bind.exchanges Service.backend m h).map Sigma.fst = [.describeTable s.tableName] := by
  refine bind_of_refused hh htable ?_ fun d hd => ?_
  · exact Service.Table.look_eq_self (by rw [hstatus]; nofun) (by rw [hstatus]; nofun)
  · rw [bindTo, hd, hstatus]
    rfl

/-- Binding to a table that is there checks its marker if the table is ready, and fails otherwise. -/
theorem outcome_bind_of_found (hh : h.IsQuiet)
    (htable : h.state.tables[s.tableName]? = some table) :
    s.IsReady table ∧ (s.bind.run Service.backend m h).outcome = s.verdict table.items ∨
      ¬ s.IsReady table ∧ ∃ e, (s.bind.run Service.backend m h).outcome = .error e := by
  obtain ⟨d, h₁, hbind, -, hstatus, hh₁, hlook⟩ := exists_run_bind_of_look (m := m) hh htable
  have hitems : h₁.state.items? s.tableName = some table.items := by
    rw [Service.items?, hlook, Option.map_some, table.items_look]
  obtain ⟨h₂, hcheck⟩ := exists_run_checkMarker (m := m) hh₁ hitems
  -- the status before the look says what the look may report
  cases htext : TableStatus.ofText table.status with
  | active =>
    rw [Service.Table.look_eq htext, htext] at hstatus
    rw [hbind, bindTo, hstatus, IsReady, htext]
    exact .inl ⟨trivial, congrArg Run.outcome hcheck⟩
  | updating =>
    rw [hbind, bindTo, hstatus, IsReady, htext]
    obtain hactive | hupdating := table.look_status.imp_right (·.trans htext)
    · rw [hactive]
      exact .inl ⟨trivial, congrArg Run.outcome hcheck⟩
    · rw [hupdating]
      exact .inl ⟨trivial, congrArg Run.outcome hcheck⟩
  | creating =>
    rw [hbind, bindTo, hstatus, IsReady, htext]
    dsimp only
    rw [Service.Table.activeWithin_succ]
    obtain hactive | hcreating := table.look_status.imp_right (·.trans htext)
    · rw [hactive]
      exact .inl ⟨Service.Table.activeWithin_of_active hactive, congrArg Run.outcome hcheck⟩
    · rw [hcreating]
      obtain ⟨r, h₃, n, hawait, hwatched, ⟨hwithin, rfl, -⟩ | ⟨hnot, rfl⟩⟩ :=
        exists_run_awaitActiveFor (m := m) s.tableWaitMaxPolls.toNat (.inr hh₁.closesAt) hlook
          hcreating
      · have hh₃ : h₃.IsQuiet :=
          ⟨hh₁.state.of_plan_eq hwatched.plan_eq, hwatched.closesAt_eq.trans hh₁.closesAt⟩
        have hitems₃ : h₃.state.items? s.tableName = some table.items := by
          rw [Service.items?, hwatched.found, Option.map_some, Service.Table.items_lookTimes,
            table.items_look]
        obtain ⟨h₄, hcheck₃⟩ := exists_run_checkMarker (m := m) hh₃ hitems₃
        dsimp only
        rw [awaitActive, run_bind_of_ok hawait]
        exact .inl ⟨hwithin, congrArg Run.outcome hcheck₃⟩
      · dsimp only
        rw [awaitActive, run_bind, hawait]
        exact .inr ⟨hnot, _, rfl⟩
  | deleting =>
    rw [IsReady, htext]
    exact .inr ⟨not_false, _, (bind_of_deleting hh htable htext).1⟩
  | unrecognized text =>
    rw [IsReady, htext]
    exact .inr ⟨not_false, _, (bind_of_unrecognized hh htable htext).1⟩

/-- Binding to a table that is there leaves its items and its capacity alone. -/
theorem holds_bind_of_found (hh : h.IsQuiet) (htable : h.state.tables[s.tableName]? = some table) :
    (s.bind.run Service.backend m h).host.state.Holds s.tableName table.items table.capacity := by
  have hholds : h.state.Holds s.tableName table.items table.capacity := ⟨table, htable, rfl, rfl⟩
  have hall : s.bind.Always (Service.exactWorld h.now).logged m (h.state, []) _ :=
    always_bind_of_holds hholds
  obtain ⟨hfound, hleads⟩ :=
    hall.run_logged (Service.within_exactWorld h.now) (h := h) trivial rfl
  exact (holds_of_leads hfound.looksOnly hleads hholds hh.state.isCalm).1

/-! ## Any table -/

/-- Binding to a missing table fails if it may not make the table. -/
theorem exists_bind_eq_error (hcreate : s.createTable = false)
    (hmissing : h.state.tables[s.tableName]? = none) :
    ∃ e, (s.bind.run Service.backend m h).outcome = .error e := by
  have hfirst : (perform (.ask (.describeTable s.tableName))).run Service.backend m h = ⟨_, m, _⟩ :=
    run_perform_ask (Service.answer_describeTable_of_missing hmissing)
  unfold bind
  rw [run_bind_of_ok hfirst]
  dsimp only [Service.notFound]
  rw [if_neg (by rw [hcreate]; nofun)]
  exact ⟨_, rfl⟩

/-- Binding to a missing table makes it, if it may and the table becomes active in time. -/
theorem bind_missing_cases (hh : h.IsQuiet) (hmissing : h.state.tables[s.tableName]? = none) :
    (s.createTable = true ∧ h.state.activationLooks < s.tableWaitMaxPolls.toNat ∧
        (s.bind.run Service.backend m h).outcome = .ok ⟨true, Marker.current, some h.now⟩ ∧
        (s.bind.run Service.backend m h).host.state.Holds s.tableName (madeItems h.now)
          s.capacity) ∨
      ¬ (s.createTable = true ∧ h.state.activationLooks < s.tableWaitMaxPolls.toNat) ∧
        ∃ e, (s.bind.run Service.backend m h).outcome = .error e := by
  cases hcreate : s.createTable with
  | false => exact .inr ⟨fun ⟨hmay, _⟩ => (nomatch hmay), exists_bind_eq_error hcreate hmissing⟩
  | true =>
    obtain ⟨r, h₁, table, hbind, htable, hcapacity, hended⟩ :=
      exists_run_bind_making (m := m) hh.state.neverFails (.inr hh.closesAt) hcreate hmissing
    rw [hbind]
    obtain ⟨hlooks, rfl, -, hitems⟩ | ⟨hlooks, rfl, -⟩ := hended
    · exact .inl ⟨rfl, hlooks, rfl, table, htable, hitems, hcapacity⟩
    · exact .inr ⟨fun ⟨_, hless⟩ => absurd hless (Nat.not_lt.2 hlooks), _, rfl⟩

/-- Binding to a table that is there succeeds if its marker holds the current version and the table is
ready. -/
theorem bind_found_cases (hh : h.IsQuiet) (htable : h.state.tables[s.tableName]? = some table) :
    (table.items.version? = some Marker.current ∧ s.IsReady table ∧
        (s.bind.run Service.backend m h).outcome =
          .ok ⟨false, Marker.current, (table.items.item? Marker.key).bind Marker.createdAt?⟩) ∨
      ¬ (table.items.version? = some Marker.current ∧ s.IsReady table) ∧
        ∃ e, (s.bind.run Service.backend m h).outcome = .error e := by
  obtain ⟨hready, houtcome⟩ | ⟨hready, herror⟩ := outcome_bind_of_found (m := m) hh htable
  · by_cases hversion : table.items.version? = some Marker.current
    · exact .inl ⟨hversion, hready, houtcome.trans (verdict_of_current hversion)⟩
    · obtain ⟨e, he⟩ := exists_verdict_eq_error (s := s) hversion
      exact .inr ⟨fun ⟨hcurrent, _⟩ => hversion hcurrent, e, houtcome.trans he⟩
  · exact .inr ⟨fun ⟨_, hmust⟩ => hready hmust, herror⟩

/-- **The outcome of binding.** When no request fails, nobody else writes and no shutdown comes,
binding succeeds exactly if the table is missing, may be made, and takes fewer looks to become active
than binding waits for, or if the table is there, its marker holds the current version, and the table
is ready. The binding says whether the table was missing; then the table holds the marker only, with
the time of creation that the binding has, and has the capacity of the settings. A table that was
there keeps its items and its capacity, even if binding fails, and the binding has the time of
creation of its marker. A table that is being deleted or has an unknown status is refused after the
first look. -/
theorem bind_outcome (hh : h.IsQuiet) :
    let run := s.bind.run Service.backend m h
    let found := h.state.tables[s.tableName]?
    ((∃ binding, run.outcome = .ok binding) ↔
        found = none ∧ s.createTable = true ∧
            h.state.activationLooks < s.tableWaitMaxPolls.toNat ∨
          ∃ table, found = some table ∧ table.items.version? = some Marker.current ∧
            s.IsReady table) ∧
      (∀ binding, run.outcome = .ok binding →
        binding.version = Marker.current ∧ (binding.createdTable = true ↔ found = none) ∧
          (found = none → ∃ createdAt, binding.createdAt = some createdAt ∧
            run.host.state.Holds s.tableName (madeItems createdAt) s.capacity) ∧
          ∀ table, found = some table →
            binding.createdAt = (table.items.item? Marker.key).bind Marker.createdAt?) ∧
      ∀ table, found = some table →
        run.host.state.Holds s.tableName table.items table.capacity ∧
          (TableStatus.ofText table.status = .deleting →
            run.outcome = .error (s.unavailable "table is being deleted") ∧
              (s.bind.exchanges Service.backend m h).map Sigma.fst = [.describeTable s.tableName]) ∧
          ∀ text, TableStatus.ofText table.status = .unrecognized text →
            run.outcome = .error (s.unavailable s!"Unknown table status {text}") ∧
              (s.bind.exchanges Service.backend m h).map Sigma.fst =
                [.describeTable s.tableName] := by
  dsimp only
  cases hfound : h.state.tables[s.tableName]? with
  | none =>
    obtain ⟨hcreate, hlooks, hok, hholds⟩ | ⟨hnot, e, he⟩ := bind_missing_cases (m := m) hh hfound
    · rw [hok]
      refine ⟨⟨fun _ => .inl ⟨rfl, hcreate, hlooks⟩, fun _ => ⟨_, rfl⟩⟩, ?_, nofun⟩
      rintro _ ⟨⟩
      exact ⟨rfl, ⟨fun _ => rfl, fun _ => rfl⟩, fun _ => ⟨_, rfl, hholds⟩, nofun⟩
    · rw [he]
      refine ⟨⟨nofun, ?_⟩, nofun, nofun⟩
      rintro (⟨-, hmade⟩ | ⟨_, ⟨⟩, -⟩)
      exact absurd hmade hnot
  | some table =>
    refine ⟨?_, ?_, ?_⟩
    · obtain ⟨hversion, hready, hok⟩ | ⟨hnot, e, he⟩ := bind_found_cases (m := m) hh hfound
      · rw [hok]
        exact ⟨fun _ => .inr ⟨table, rfl, hversion, hready⟩, fun _ => ⟨_, rfl⟩⟩
      · rw [he]
        refine ⟨nofun, ?_⟩
        rintro (⟨⟨⟩, -⟩ | ⟨_, ⟨⟩, hready⟩)
        exact absurd hready hnot
    · intro binding hbinding
      obtain ⟨-, -, hok⟩ | ⟨-, e, he⟩ := bind_found_cases (m := m) hh hfound
      · obtain rfl := Except.ok.inj (hok.symm.trans hbinding)
        refine ⟨rfl, ⟨nofun, nofun⟩, nofun, ?_⟩
        rintro _ ⟨⟩
        rfl
      · cases he.symm.trans hbinding
    · rintro _ ⟨⟩
      exact ⟨holds_bind_of_found hh hfound, bind_of_deleting hh hfound,
        fun _ => bind_of_unrecognized hh hfound⟩

end Settings

/-! ## A sample -/

namespace Sample

/-- A table with a marker that is still being made, and becomes active with the fourth look. -/
def awaitedTable : Service.Table := ⟨"CREATING", {}, ⟨5, 6⟩, .looks 3, Settings.madeItems 1234⟩

/-- A service with that table. -/
def awaitedHost : Host Service :=
  { host with state := host.state.setTable store.table awaitedTable }

/-- Settings that wait for so many looks. -/
def waitingFor (looks : UInt32) : Settings := { store.settings with tableWaitMaxPolls := looks }

/-- The first look and three more make the table active, two more do not. -/
theorem bind_outcome_awaited :
    (∃ binding, ((waitingFor 3).bind.run Service.backend {} awaitedHost).outcome = .ok binding ∧
        binding.createdTable = false ∧ binding.createdAt = some 1234) ∧
      ¬ ∃ binding, ((waitingFor 2).bind.run Service.backend {} awaitedHost).outcome =
        .ok binding := by
  have hquiet : awaitedHost.IsQuiet := ⟨⟨rfl, rfl, rfl⟩, rfl⟩
  have hfound : awaitedHost.state.tables[store.table]? = some awaitedTable := by
    simp [awaitedHost, Service.setTable]
  have hcreating : TableStatus.ofText awaitedTable.status = .creating := rfl
  have hready : ∀ looks : UInt32,
      (waitingFor looks).IsReady awaitedTable ↔ 3 < looks.toNat + 1 := by
    intro looks
    rw [Settings.IsReady, hcreating]
    exact Service.Table.activeWithin_of_creating hcreating rfl
  have hversion : awaitedTable.items.version? = some Marker.current := by decide +kernel
  have hmarker : (awaitedTable.items.item? Marker.key).bind Marker.createdAt? = some 1234 := by
    decide +kernel
  obtain ⟨hiff, hbinding, -⟩ := Settings.bind_outcome (s := waitingFor 3) (m := {}) hquiet
  obtain ⟨binding, hok⟩ :=
    hiff.2 (.inr ⟨awaitedTable, hfound, hversion, (hready 3).2 (by decide)⟩)
  obtain ⟨-, hcreated, -, hcreatedAt⟩ := hbinding binding hok
  refine ⟨⟨binding, hok, ?_, (hcreatedAt awaitedTable hfound).trans hmarker⟩, ?_⟩
  · rw [← Bool.not_eq_true, hcreated, show awaitedHost.state.tables[(waitingFor 3).tableName]? = _
      from hfound]
    exact Option.some_ne_none awaitedTable
  · rw [(Settings.bind_outcome (s := waitingFor 2) (m := {}) hquiet).1]
    rintro (⟨hmissing, -⟩ | ⟨table, htable, -, hnot⟩)
    · cases hfound.symm.trans hmissing
    · obtain rfl := Option.some.inj (hfound.symm.trans htable)
      exact absurd ((hready 2).1 hnot) (by decide)

end Sample

end TableTree
