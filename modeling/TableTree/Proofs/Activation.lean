import TableTree.Proofs.Attempts
import TableTree.Proofs.Runs

/-!
# Tables that become active

A table that was just made or changed becomes active by being looked at: the service counts the looks
at it. Waiting for a table looks at it so often and no more, so whether waiting ends well is a question
of how many looks the table takes.

Results:

* `Service.NeverFails`, `Host.IsQuiet`: services and hosts on which no request fails.
* `Service.Table.ActiveWithin`: tables that so many looks make active;
  `Service.Table.activeWithin_of_creating` and `Service.Table.activeWithin_of_ofNat` count the looks.
* `Settings.exists_run_awaitActiveFor`: how waiting for a table that is being made ends.
* `Settings.exists_run_finishTable`: how finishing a table that was just made ends.
-/

namespace TableTree

open Operation

variable {m : Memory} {h : Host Service}

/-! ## Quiet services and hosts -/

namespace Service

variable {s : Service} {t : String} {items : Items}

/-- No request is going to fail. -/
structure NeverFails (s : Service) : Prop where
  throttles : s.plan.throttles = 0
  faults : s.plan.faults = 0

theorem NeverFails.unlessFault_eq {α : Type} (hs : s.NeverFails)
    (serve : Service → Except ServiceError α × Service) : s.unlessFault serve = serve s := by
  simp [unlessFault, takeFault, hs.throttles, hs.faults]

/-- No request is going to fail, and nobody else is going to write. -/
structure IsQuiet (s : Service) : Prop where
  throttles : s.plan.throttles = 0
  faults : s.plan.faults = 0
  isCalm : s.IsCalm

theorem IsQuiet.of_plan_eq {s' : Service} (hs : s.IsQuiet) (hplan : s'.plan = s.plan) :
    s'.IsQuiet := by
  refine ⟨?_, ?_, ?_⟩
  · rw [hplan, hs.throttles]
  · rw [hplan, hs.faults]
  · rw [IsCalm, hplan, hs.isCalm]

theorem plan_count (s : Service) (r : Request) : (s.count r).plan = s.plan := by
  cases r <;> rfl

theorem IsQuiet.neverFails (hs : s.IsQuiet) : s.NeverFails := ⟨hs.throttles, hs.faults⟩

theorem IsQuiet.answer_getItem (hs : s.IsQuiet) (hitems : s.items? t = some items) (key : Key) :
    s.answer (.getItem t key) = (.ok (items.item? key), s.count (.getItem t key)) := by
  have hcount := hs.of_plan_eq (s.plan_count (.getItem t key))
  have hitems' : (s.count (.getItem t key)).items? t = some items := hitems
  show unlessFault (s.count (.getItem t key)) _ = _
  rw [hcount.neverFails.unlessFault_eq, getItem, readItems, hitems', serveRead_eq hcount.isCalm]

theorem NeverFails.of_plan_eq {s' : Service} (hs : s.NeverFails) (hplan : s'.plan = s.plan) :
    s'.NeverFails :=
  ⟨hplan ▸ hs.throttles, hplan ▸ hs.faults⟩

theorem NeverFails.answer_putItem (hs : s.NeverFails) (hitems : s.items? t = some items)
    (item : Item) :
    s.answer (.putItem t item) =
      (.ok (), (s.count (.putItem t item)).mapItems t (·.apply (.put item))) := by
  have hcount := hs.of_plan_eq (s.plan_count (.putItem t item))
  have hitems' : (s.count (.putItem t item)).items? t = some items := hitems
  show unlessFault (s.count (.putItem t item)) _ = _
  rw [hcount.unlessFault_eq, writeItems, hitems']

/-- A look at a table brings it closer to being active, and reports the status after that. -/
theorem exists_answer_describeTable {table : Table} (h : s.tables[t]? = some table) :
    ∃ d s₁, s.answer (.describeTable t) = (.ok d, s₁) ∧
      d.tableStatus = TableStatus.ofText table.look.status ∧ s₁.tables[t]? = some table.look ∧
      s₁.plan = s.plan := by
  show ∃ d s₁, describeTable (s.count (.describeTable t)) t = (.ok d, s₁) ∧ _
  unfold describeTable
  rw [(s.sameTables_count _).tables, h]
  exact ⟨_, _, rfl, rfl, by simp [setTable], rfl⟩

theorem answer_describeTable_of_missing (h : s.tables[t]? = none) :
    s.answer (.describeTable t) = (.error (notFound t), s.count (.describeTable t)) := by
  show describeTable (s.count (.describeTable t)) t = _
  unfold describeTable
  rw [(s.sameTables_count _).tables, h]

/-- A missing table is made, even when somebody else makes it at the same time. -/
theorem exists_answer_createTable (keySchema : KeySchema) (capacity : Capacity)
    (h : s.tables[t]? = none) :
    ∃ answer s₁, s.answer (.createTable t keySchema capacity) = (answer, s₁) ∧
      ((∃ d, answer = .ok d) ∨ ∃ reason, answer = .error (.resourceInUse reason)) ∧
      s₁.tables[t]? = some ⟨TableStatus.creating.text, keySchema, capacity,
        .ofNat s.activationLooks, ∅⟩ ∧
      s₁.plan = { s.plan with createRaces := s.plan.createRaces - 1 } := by
  have hcontains : ¬ s.tables.contains t = true := by
    simp [Std.ExtTreeMap.contains_eq_isSome_getElem?, h]
  show ∃ answer s₁, createTable (s.count (.createTable t keySchema capacity)) t keySchema capacity =
    (answer, s₁) ∧ _
  unfold createTable
  dsimp only
  rw [(s.sameTables_count _).tables, if_neg hcontains]
  refine ⟨_, _, rfl, ?_, ?_, ?_⟩
  · split
    · exact .inr ⟨_, rfl⟩
    · exact .inl ⟨_, rfl⟩
  · simp [setTable, count]
  · rfl

/-- A look at a table that is neither being made nor being changed changes nothing. -/
theorem Table.look_eq_self {table : Table} (hcreating : TableStatus.ofText table.status ≠ .creating)
    (hupdating : TableStatus.ofText table.status ≠ .updating) : table.look = table := by
  unfold look
  split
  · rename_i hstatus _
    exact absurd hstatus hcreating
  · rename_i hstatus _
    exact absurd hstatus hupdating
  · rename_i hstatus _
    exact absurd hstatus hcreating
  · rename_i hstatus _
    exact absurd hstatus hupdating
  · rfl

/-- A look at an active table changes nothing. -/
theorem Table.look_eq {table : Table} (h : TableStatus.ofText table.status = .active) :
    table.look = table :=
  look_eq_self (by rw [h]; nofun) (by rw [h]; nofun)

/-- A table is active after a look, or its status is what it was. -/
theorem Table.look_status (table : Table) :
    TableStatus.ofText table.look.status = .active ∨
      TableStatus.ofText table.look.status = TableStatus.ofText table.status := by
  unfold look
  split
  · exact .inl rfl
  · exact .inl rfl
  · exact .inr rfl
  · exact .inr rfl
  · exact .inr rfl

end Service

/-- The service is quiet, and no shutdown is to come. -/
structure Host.IsQuiet (h : Host Service) : Prop where
  state : h.state.IsQuiet
  closesAt : h.closesAt = none

namespace Host.IsQuiet

theorem set (hh : h.IsQuiet) {s : Service} (hs : s.plan = h.state.plan) :
    Host.IsQuiet { h with state := s } :=
  ⟨hh.state.of_plan_eq hs, hh.closesAt⟩

theorem later {k : Host Service} (hh : h.IsQuiet) (hk : h.Later k) : k.IsQuiet :=
  ⟨hk.state_eq ▸ hh.state, hk.closesAt_eq.trans hh.closesAt⟩

/-- No wait is interrupted. -/
theorem sleep_elapsed (hh : h.IsQuiet) (d : Duration) : (h.sleep d).1 = .elapsed :=
  congrArg Prod.fst (Host.sleep_of_open hh.closesAt d)

end Host.IsQuiet

/-! ## Looking at a table again and again -/

namespace Service.Table

variable {t : Table} {looks left : Nat}

/-- A table after so many looks at it. -/
def lookTimes (t : Table) : Nat → Table
  | 0 => t
  | looks + 1 => t.look.lookTimes looks

theorem items_lookTimes (t : Table) (looks : Nat) : (t.lookTimes looks).items = t.items := by
  induction looks generalizing t with
  | zero => rfl
  | succ looks ih => exact (ih t.look).trans t.items_look

/-- A look at a table leaves its capacity alone. -/
theorem capacity_look (table : Table) : table.look.capacity = table.capacity := by
  unfold look
  split <;> rfl

theorem capacity_lookTimes (t : Table) (looks : Nat) :
    (t.lookTimes looks).capacity = t.capacity := by
  induction looks generalizing t with
  | zero => rfl
  | succ looks ih => exact (ih t.look).trans t.capacity_look

/-- The table is active, or so many looks make it active. -/
def ActiveWithin (t : Table) (looks : Nat) : Prop :=
  ∃ n ≤ looks, TableStatus.ofText (t.lookTimes n).status = .active

theorem activeWithin_of_active (h : TableStatus.ofText t.status = .active) : t.ActiveWithin looks :=
  ⟨0, Nat.zero_le _, h⟩

theorem activeWithin_zero : t.ActiveWithin 0 ↔ TableStatus.ofText t.status = .active := by
  constructor
  · rintro ⟨n, hn, hactive⟩
    obtain rfl := Nat.le_zero.1 hn
    exact hactive
  · exact activeWithin_of_active

/-- The first look leaves an active table active, and brings any other one closer to it. -/
theorem activeWithin_succ : t.ActiveWithin (looks + 1) ↔ t.look.ActiveWithin looks := by
  constructor
  · rintro ⟨_ | n, hn, hactive⟩
    · have hlook : t.look = t := look_eq hactive
      rw [hlook]
      exact activeWithin_of_active hactive
    · exact ⟨n, Nat.le_of_succ_le_succ hn, hactive⟩
  · rintro ⟨n, hn, hactive⟩
    exact ⟨n + 1, Nat.succ_le_succ hn, hactive⟩

/-- A table that is being made becomes active with the look after those that it is to stay pending. -/
theorem activeWithin_of_creating (h : TableStatus.ofText t.status = .creating)
    (hpending : t.pending = .looks left) : t.ActiveWithin looks ↔ left < looks := by
  induction looks generalizing t left with
  | zero => simp [activeWithin_zero, h]
  | succ looks ih =>
    rw [activeWithin_succ]
    cases left with
    | zero =>
      have hlook : t.look = { t with status := TableStatus.active.text } := by
        unfold look
        rw [h, hpending]
      rw [hlook]
      exact iff_of_true (activeWithin_of_active rfl) (Nat.succ_pos looks)
    | succ left =>
      have hlook : t.look = { t with pending := .looks left } := by
        unfold look
        rw [h, hpending]
      rw [hlook, ih (t := { t with pending := .looks left }) h rfl]
      omega

/-- A table that is to stay pending for good does not become active. -/
theorem not_activeWithin_of_never (h : TableStatus.ofText t.status = .creating)
    (hpending : t.pending = .never) : ¬ t.ActiveWithin looks := by
  have hlook : t.look = t := by
    unfold look
    rw [h, hpending]
  induction looks with
  | zero => simp [activeWithin_zero, h]
  | succ looks ih => rwa [activeWithin_succ, hlook]

/-- A table that was just made becomes active within so many looks if the service takes fewer to make
it active. -/
theorem activeWithin_of_ofNat (h : TableStatus.ofText t.status = .creating)
    (hpending : t.pending = .ofNat left) (hlooks : looks < UInt64.size) :
    t.ActiveWithin looks ↔ left < looks := by
  unfold Pending.ofNat at hpending
  split at hpending
  · have hleft : ¬ left < looks := by omega
    exact iff_of_false (not_activeWithin_of_never h hpending) hleft
  · exact activeWithin_of_creating h hpending

end Service.Table

/-- The tables of a service after the items of one were changed. -/
theorem Service.getElem?_mapItems {s : Service} {t : String} {table : Service.Table}
    (h : s.tables[t]? = some table) (f : Items → Items) :
    (s.mapItems t f).tables[t]? = some { table with items := f table.items } := by
  unfold mapItems
  rw [h]
  simp [setTable]

/-! ## Waiting for a table -/

/-- The host `k` is the host `h` after looks at the table `t`, and maybe after waits. By now `table`
is what the table has come to. -/
structure Host.Watched (h k : Host Service) (t : String) (table : Service.Table) : Prop where
  plan_eq : k.state.plan = h.state.plan
  now_eq : k.now = h.now
  closesAt_eq : k.closesAt = h.closesAt
  found : k.state.tables[t]? = some table

namespace Settings

variable {s : Settings}

/-- Waiting for a table that is being made ends well if so many looks make it active. Otherwise it
gives up. There is no wait if the first look makes the table active, and none is interrupted if no
shutdown is to come. -/
theorem exists_run_awaitActiveFor {table : Service.Table} (looks : Nat)
    (hopen : table.ActiveWithin 1 ∨ h.closesAt = none)
    (htable : h.state.tables[s.tableName]? = some table)
    (hcreating : TableStatus.ofText table.status = .creating) :
    ∃ r h₁ n, (s.awaitActiveFor looks).run Service.backend m h = ⟨r, m, h₁⟩ ∧
      h.Watched h₁ s.tableName (table.lookTimes n) ∧
      (table.ActiveWithin looks ∧ r = .ok () ∧
          TableStatus.ofText (table.lookTimes n).status = .active ∨
        ¬ table.ActiveWithin looks ∧
          r = .error (s.unavailable s!"table is not active after {s.tableWaitMaxPolls} polls")) := by
  induction looks generalizing h table with
  | zero =>
    refine ⟨_, h, 0, rfl, ⟨rfl, rfl, rfl, htable⟩, .inr ⟨?_, rfl⟩⟩
    rw [Service.Table.activeWithin_zero, hcreating]
    nofun
  | succ looks ih =>
    obtain ⟨d, s₁, hanswer, hstatus, htable₁, hplan⟩ := Service.exists_answer_describeTable htable
    have hdescribe : s.describe.run Service.backend m h = ⟨.ok d, m, { h with state := s₁ }⟩ :=
      Client.run_retry_ask hanswer
    rw [awaitActiveFor, run_bind_of_ok hdescribe, hstatus, Service.Table.activeWithin_succ]
    obtain hactive | hcreating₁ := table.look_status.imp_right (·.trans hcreating)
    · rw [hactive]
      exact ⟨_, _, 1, rfl, ⟨hplan, rfl, rfl, htable₁⟩,
        .inl ⟨Service.Table.activeWithin_of_active hactive, rfl, hactive⟩⟩
    · replace hopen : h.closesAt = none := by
        refine hopen.resolve_left ?_
        rw [Service.Table.activeWithin_succ, Service.Table.activeWithin_zero, hcreating₁]
        nofun
      have hwait : (Host.sleep { h with state := s₁ } s.tablePollInterval).1 = .elapsed :=
        congrArg Prod.fst (Host.sleep_of_open (h := { h with state := s₁ }) hopen _)
      have hlater := Host.later_sleep hwait
      rw [hcreating₁]
      dsimp only
      rw [run_bind_of_ok (Client.run_pause hwait)]
      have hnext := (congrArg (·.tables[s.tableName]?) hlater.state_eq).trans htable₁
      obtain ⟨r, h₂, n, hrun, hwatched, hr⟩ :=
        ih (.inr (hlater.closesAt_eq.trans hopen)) hnext hcreating₁
      refine ⟨r, h₂, n + 1, hrun, ⟨?_, ?_, ?_, hwatched.found⟩, hr⟩
      · rw [hwatched.plan_eq, hlater.state_eq, hplan]
      · exact hwatched.now_eq.trans hlater.now_eq
      · exact hwatched.closesAt_eq.trans hlater.closesAt_eq

/-- A table that is being made is finished if it becomes active in time, and then it holds the marker
besides the items that it has. Otherwise it is left as the looks have made it. -/
theorem exists_run_finishTable {table : Service.Table} (hfair : h.state.NeverFails)
    (hopen : table.ActiveWithin 1 ∨ h.closesAt = none)
    (htable : h.state.tables[s.tableName]? = some table)
    (hcreating : TableStatus.ofText table.status = .creating) :
    ∃ r h₁ n, s.finishTable.run Service.backend m h = ⟨r, m, h₁⟩ ∧
      (table.ActiveWithin s.tableWaitMaxPolls.toNat ∧
          r = .ok ⟨true, Marker.current, some h.now⟩ ∧
          TableStatus.ofText (table.lookTimes n).status = .active ∧
          h₁.state.tables[s.tableName]? = some { table.lookTimes n with
            items := table.items.apply (.put (Marker.item Marker.current h.now)) } ∨
        ¬ table.ActiveWithin s.tableWaitMaxPolls.toNat ∧
          r = .error (s.unavailable s!"table is not active after {s.tableWaitMaxPolls} polls") ∧
          h₁.state.tables[s.tableName]? = some (table.lookTimes n)) := by
  obtain ⟨r, h₁, n, hawait, hwatched, ⟨hactive, rfl, hstatus⟩ | ⟨hnot, rfl⟩⟩ :=
    exists_run_awaitActiveFor (m := m) s.tableWaitMaxPolls.toNat hopen htable hcreating
  · have hclock : (perform .now).run Service.backend m h₁ = ⟨.ok h.now, m, h₁⟩ := by
      rw [run_perform, ← hwatched.now_eq]
      rfl
    have hitems : h₁.state.items? s.tableName = some table.items := by
      rw [Service.items?, hwatched.found, Option.map_some, Service.Table.items_lookTimes]
    have hput : (s.client.retry "putVersionMarker" s.tableName true
        (.ask (.putItem s.tableName (Marker.item Marker.current h.now)))).run Service.backend m h₁ =
          ⟨.ok (), m, _⟩ :=
      Client.run_retry_ask ((hfair.of_plan_eq hwatched.plan_eq).answer_putItem hitems _)
    unfold finishTable awaitActive
    rw [run_bind_of_ok hawait, run_bind_of_ok hclock, run_bind_of_ok hput]
    refine ⟨_, _, n, rfl, .inl ⟨hactive, rfl, hstatus, ?_⟩⟩
    have hfound : (h₁.state.count (.putItem s.tableName (Marker.item Marker.current h.now))).tables[
        s.tableName]? = some (table.lookTimes n) := hwatched.found
    rw [← table.items_lookTimes n]
    exact Service.getElem?_mapItems hfound _
  · unfold finishTable awaitActive
    rw [run_bind, hawait]
    exact ⟨_, _, n, rfl, .inr ⟨hnot, rfl, hwatched.found⟩⟩

end Settings

end TableTree
