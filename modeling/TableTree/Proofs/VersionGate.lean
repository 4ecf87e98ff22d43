import TableTree.Proofs.Life
import TableTree.Proofs.MarkerRace
import TableTree.Proofs.Rebinding

/-!
# The version gate

A store does nothing with its table before it is bound to it, and it is bound to a table that is there
only if the marker holds the current version. So a table with another marker, or none, stays as it is
whatever a store is asked for: the store looks at the table and for the marker, each time anew, and
refuses.

Results:

* `Service.Holds`: a table with its items and its capacity.
* `Settings.always_bind_of_holds`: binding to a table that is there only looks.
* `Settings.always_bind_gated`: binding to a table with no current marker fails.
* `Store.Refuses`, `Action.refuses_perform`: what becomes of an action that needs the table.
* `Stage.gated_live`: the table along the life of a store, and what the store sends.
-/

namespace TableTree

open Operation

/-! ## A table that is there -/

namespace Service

/-- The table `t` is there, with these items and this capacity. -/
def Holds (s : Service) (t : String) (items : Items) (capacity : Capacity) : Prop :=
  ∃ table, s.tables[t]? = some table ∧ table.items = items ∧ table.capacity = capacity

variable {s s' : Service} {t : String} {items : Items} {capacity : Capacity}

theorem Holds.items?_eq (h : s.Holds t items capacity) : s.items? t = some items := by
  obtain ⟨table, htable, rfl, -⟩ := h
  rw [items?, htable]
  rfl

theorem Holds.of_tables_eq (h : s.Holds t items capacity) (htables : s'.tables = s.tables) :
    s'.Holds t items capacity := by
  rwa [Holds, htables]

/-- A look at a table that is there finds it, and leaves it there. -/
theorem Holds.answer_describeTable (h : s.Holds t items capacity) :
    (∃ d, (s.answer (.describeTable t)).1 = .ok d) ∧
      (s.answer (.describeTable t)).2.Holds t items capacity := by
  obtain ⟨table, htable, rfl, rfl⟩ := h
  obtain ⟨d, s₁, hanswer, -, htable', -⟩ := exists_answer_describeTable htable
  rw [hanswer]
  exact ⟨⟨d, rfl⟩, table.look, htable', table.items_look, table.capacity_look⟩

theorem sameTables_answer_getItem (hs : s.IsCalm) (key : Key) :
    SameTables s (s.answer (.getItem t key)).2 := by
  have hcount := s.sameTables_count (.getItem t key)
  show SameTables s (unlessFault _ _).2
  rcases unlessFault_cases (s.count (.getItem t key)) (·.getItem t key) with heq | ⟨e, heq, -⟩
  · rw [heq, getItem, serveRead_eq (hcount.isCalm hs)]
    exact hcount
  · rw [heq]
    have hfault := sameTables_takeFault (s.count (.getItem t key))
    exact ⟨hfault.tables.trans hcount.tables, hfault.lateWrites.trans hcount.lateWrites⟩

/-- The service as it is, while the clock shows `time`. -/
def exactWorld (time : Int64) : World Service where
  answers r s answer s' := s.answer r = (answer, s')
  shows now := now = time

theorem within_exactWorld (time : Int64) :
    Service.backend.Within (exactWorld time) id fun _ => True :=
  ⟨fun _ _ _ => rfl, fun _ _ _ => trivial⟩

/-- A request that looks at the table `t` or reads from it leaves it there. -/
theorem Holds.of_answers {time : Int64} {x : Exchange}
    (hx : x.1 = .describeTable t ∨ x.1 = .getItem t Marker.key)
    (ha : (exactWorld time).answers x.1 s x.2 s') (h : s.Holds t items capacity ∧ s.IsCalm) :
    s'.Holds t items capacity ∧ s'.IsCalm := by
  obtain ⟨r, answer⟩ := x
  obtain ⟨hholds, hcalm⟩ := h
  have hanswer : s.answer r = (answer, s') := ha
  have hcalm' : (s.answer r).2.IsCalm := (within_tableWorld t time).keeps r s hcalm
  rw [hanswer] at hcalm'
  refine ⟨?_, hcalm'⟩
  rcases hx with hr | hr
  · obtain rfl : r = .describeTable t := hr
    have := hholds.answer_describeTable.2
    rwa [hanswer] at this
  · obtain rfl : r = .getItem t Marker.key := hr
    have htables := (sameTables_answer_getItem (t := t) hcalm Marker.key).tables
    rw [hanswer] at htables
    exact hholds.of_tables_eq htables

/-- What is read is the item of the key. -/
theorem Holds.of_answer_getItem {time : Int64} {key : Key} {found : Option Item}
    (h : s.Holds t items capacity) (hcalm : s.IsCalm)
    (ha : (exactWorld time).answers (.getItem t key) s (.ok found) s') :
    found = items.item? key := by
  have hanswer : s.answer (.getItem t key) = (.ok found, s') := ha
  have hserved := (within_tableWorld t time).answers (.getItem t key) s hcalm
  replace hserved := served_of_answers rfl hserved
  rw [show (backend.answer (.getItem t key) s) = s.answer (.getItem t key) from rfl, hanswer,
    h.items?_eq] at hserved
  obtain ⟨-, _, ⟨⟩, hfound⟩ := hserved
  exact hfound

end Service

/-- The version that the marker among some items holds, if there is one. -/
def Items.version? (items : Items) : Option Int64 :=
  (items.item? Marker.key).bind (·.long? Marker.versionName)

/-! ## Binding -/

namespace Settings

variable {s : Settings} {m : Memory} {items : Items} {capacity : Capacity} {time : Int64}
  {st : Service}

/-- A request that looks at the table or for its marker. -/
def LooksOnly (s : Settings) (x : Exchange) : Prop :=
  x.1 = .describeTable s.tableName ∨ x.1 = .getItem s.tableName Marker.key

theorem Looks.looksOnly {x : Exchange} (hx : s.Looks x) : s.LooksOnly x := by
  rcases hx with h | ⟨_, rfl, -⟩
  · exact .inl h
  · exact .inr rfl

theorem Found.looksOnly {log : List Exchange} {r : Except StoreError Binding} (h : s.Found log r) :
    ∀ x ∈ log, s.LooksOnly x := by
  obtain ⟨hlooks, -⟩ | ⟨marker, ⟨front, hfront, rfl⟩, -⟩ := h
  · exact fun x hx => (hlooks x hx).looksOnly
  · exact forall_mem_concat (fun x hx => (hfront x hx).looksOnly) (.inr rfl)

/-- A marker without the current version is refused. -/
theorem exists_check_eq_error {marker : Item} (t : String)
    (h : marker.long? Marker.versionName ≠ some Marker.current) :
    ∃ e, Marker.check t (some marker) = .error e := by
  cases hcheck : Marker.check t (some marker) with
  | error e => exact ⟨e, rfl⟩
  | ok v =>
    refine absurd ?_ h
    have hversion := (Marker.version_of_check hcheck).1
    unfold Marker.version at hversion
    split at hversion
    · cases hversion
      assumption
    · cases hversion

/-- What looks at the table and for its marker keeps the table as it is. -/
theorem holds_of_leads {log : List Exchange} {st' : Service} (hlog : ∀ x ∈ log, s.LooksOnly x)
    (hleads : (Service.exactWorld time).Leads st log st')
    (hholds : st.Holds s.tableName items capacity) (hcalm : st.IsCalm) :
    st'.Holds s.tableName items capacity ∧ st'.IsCalm :=
  hleads.keeps (P := fun st => st.Holds s.tableName items capacity ∧ st.IsCalm)
    (fun x hx _ _ ha hst => Service.Holds.of_answers (hlog x hx) ha hst) ⟨hholds, hcalm⟩

/-- Binding to a table that is there only looks at it and for its marker. -/
theorem always_bind_of_holds (hholds : st.Holds s.tableName items capacity) :
    s.bind.Always (Service.exactWorld time).logged m (st, []) fun r _ st' =>
      s.Found st'.2 r ∧ (Service.exactWorld time).Leads st st'.2 st'.1 := by
  refine (always_bind_logged (fun _ h => h) st).leads.imp ?_
  rintro r _ ⟨st', log⟩ ⟨⟨answer, hhead, h⟩, more, hlog, hleads⟩
  obtain rfl : log = more := hlog
  refine ⟨?_, hleads⟩
  -- the first look finds the table
  obtain ⟨rest, rfl⟩ := List.head?_eq_some_iff.1 hhead
  obtain ⟨st₁, hfirst, -⟩ := hleads
  obtain ⟨⟨d, hd⟩, -⟩ := hholds.answer_describeTable
  cases answer with
  | ok _ => exact h
  | error e =>
    have hanswer : st.answer (.describeTable s.tableName) = (.error e, st₁) := hfirst
    rw [hanswer] at hd
    cases hd

/-- Binding to a table that is there, with no current marker, fails. It looks at the table and for the
marker, and the table stays there as it is. -/
theorem always_bind_gated (hholds : st.Holds s.tableName items capacity) (hcalm : st.IsCalm)
    (hversion : items.version? ≠ some Marker.current) :
    s.bind.Always (Service.exactWorld time).logged m (st, []) fun r _ st' =>
      (∃ e, r = .error e) ∧ (st'.1.Holds s.tableName items capacity ∧ st'.1.IsCalm) ∧
        ∀ x ∈ st'.2, s.LooksOnly x := by
  refine (always_bind_of_holds hholds).imp ?_
  rintro r _ ⟨st', log⟩ ⟨hfound, hleads⟩
  refine ⟨?_, holds_of_leads hfound.looksOnly hleads hholds hcalm, hfound.looksOnly⟩
  obtain ⟨-, herror⟩ | ⟨marker, ⟨front, hfront, rfl⟩, rfl⟩ := hfound
  · exact herror
  · obtain ⟨st₁, hfirst, st₂, ha, -⟩ := World.leads_append.1 hleads
    obtain ⟨hholds₁, hcalm₁⟩ :=
      holds_of_leads (fun x hx => (hfront x hx).looksOnly) hfirst hholds hcalm
    have hmarker := hholds₁.of_answer_getItem hcalm₁ ha
    have hlong : marker.long? Marker.versionName ≠ some Marker.current := by
      rwa [Items.version?, ← hmarker, Option.bind_some] at hversion
    obtain ⟨e, he⟩ := exists_check_eq_error s.tableName hlong
    exact ⟨e, by rw [he]; rfl⟩

end Settings

/-! ## What is refused -/

/-- An operation of a store that is not bound is refused: it fails, with requests that look at the
table or for its marker, the store stays unbound, and the table as it is. -/
structure Store.Refuses {α : Type} (s : Store) (items : Items) (capacity : Capacity)
    (x : Operation α) (m : Memory) (h : Host Service) : Prop where
  error : ∃ e, (x.run Service.backend m h).outcome = .error e
  unbound : Store.IsUnbound (x.run Service.backend m h).memory
  holds : (x.run Service.backend m h).host.state.Holds s.table items capacity
  looks : ∀ y ∈ x.exchanges Service.backend m h, s.settings.LooksOnly y

namespace Store

variable {s : Store} {items : Items} {capacity : Capacity} {m : Memory} {h : Host Service}
  {α β : Type}

/-- What starts with something that is refused is refused. -/
theorem Refuses.bind {x : Operation α} (hx : s.Refuses items capacity x m h)
    (f : α → Operation β) : s.Refuses items capacity (x >>= f) m h := by
  obtain ⟨e, he⟩ := hx.error
  have hrun : (x >>= f).run Service.backend m h =
      ⟨.error e, (x.run Service.backend m h).memory, (x.run Service.backend m h).host⟩ := by
    rw [run_bind]
    rcases hr : x.run Service.backend m h with ⟨r, m₁, h₁⟩
    rw [hr] at he
    obtain rfl : r = .error e := he
    rfl
  refine ⟨⟨e, by rw [hrun]⟩, ?_, ?_, ?_⟩
  · rw [hrun]
    exact hx.unbound
  · rw [hrun]
    exact hx.holds
  · rw [exchanges_bind_of_error he]
    exact hx.looks

/-- What fails at once is refused. -/
theorem refuses_throw (hm : IsUnbound m) (hholds : h.state.Holds s.table items capacity)
    (e : StoreError) : s.Refuses items capacity (ofResult (.error e) : Operation α) m h :=
  ⟨⟨e, rfl⟩, hm, hholds, fun _ hy => absurd hy List.not_mem_nil⟩

/-- A store that is not bound binds when it is used. -/
theorem start_bound (hm : IsUnbound m) :
    s.bound.start m = (do
      let binding ← s.settings.bind
      modify fun m => { m with binding := some binding }
      pure binding : Operation Binding).start m := by
  obtain ⟨hbinding, hdestroyed⟩ := hm
  show (if m.destroyed then throw s.destroyedError else _ : Operation Binding).start m = _
  rw [hdestroyed, hbinding]
  rfl

/-- A table that is there, with no current marker, is not bound to. -/
theorem refuses_bound (hm : IsUnbound m) (hholds : h.state.Holds s.table items capacity)
    (hcalm : h.state.IsCalm) (hversion : items.version? ≠ some Marker.current) :
    s.Refuses items capacity s.bound m h := by
  have hbind : s.Refuses items capacity s.settings.bind m h := by
    have hall : s.settings.bind.Always (Service.exactWorld h.now).logged m (h.state, []) _ :=
      Settings.always_bind_gated hholds hcalm hversion
    obtain ⟨herror, ⟨hholds', -⟩, hlooks⟩ :=
      hall.run_logged (Service.within_exactWorld h.now) (h := h) trivial rfl
    exact ⟨herror, hm.alike (Settings.remembers_bind Service.backend m h), hholds', hlooks⟩
  have hrefuses := hbind.bind fun binding => do
    modify fun m => { m with binding := some binding }
    pure binding
  obtain ⟨herror, hunbound, hholds', hlooks⟩ := hrefuses
  unfold Operation.run at herror hunbound hholds'
  unfold Operation.exchanges at hlooks
  rw [← start_bound hm] at herror hunbound hholds' hlooks
  exact ⟨herror, hunbound, hholds', hlooks⟩

/-- What is known of a store that is not bound is known at once. -/
theorem endsAtOnce_diagnostics (hm : isBound m = false) :
    ∃ facts, s.diagnostics.EndsAtOnce m (.ok facts) := by
  apply Exists.intro
  show (if isBound m then _ else _ : Operation _).start m = _
  rw [hm]
  rfl

/-- A change of parameters is a change of the capacity, unless the parameters are wrong. -/
theorem updateParameters_cases (s : Store) (parameters : Std.ExtTreeMap String String) :
    (∃ e, s.updateParameters parameters = ofResult (.error e)) ∨
      ∃ read write, s.updateParameters parameters = s.updateCapacity read write := by
  unfold updateParameters
  cases parameter parameters readCapacityName with
  | error e => exact .inl ⟨e, rfl⟩
  | ok read =>
    cases hwrite : parameter parameters writeCapacityName with
    | error e => exact .inl ⟨e, rfl⟩
    | ok write => exact .inr ⟨read, write, rfl⟩

end Store

namespace Action

/-- Whether an action needs the table. A move of nothing does nothing, and what is known of the table
of a store that is not bound is known without a look. -/
def needsTable : Action → Bool
  | .use (.move none none) | .diagnostics | .close => false
  | _ => true

/-- Whether an action starts by binding to the table. -/
def startsBound : Action → Bool
  | .use .destroy | .updateParameters _ => false
  | a => a.needsTable

variable {s : Store} {items : Items} {capacity : Capacity} {m : Memory} {h : Host Service}
  {visits : Nat}

theorem exists_perform_eq_bound_bind (s : Store) (visits : Nat) {a : Action}
    (ha : a.startsBound = true) :
    ∃ f : Binding → Operation a.Result, a.perform s visits = s.bound >>= f := by
  cases a with
  | use u =>
    cases u with
    | destroy => cases ha
    | move deletes creates =>
      have hsome : ¬ (deletes.isNone && creates.isNone) = true := by
        cases deletes with
        | some paths => simp
        | none =>
          cases creates with
          | some es => simp
          | none => cases ha
      exact ⟨_, if_neg hsome⟩
    | _ => exact ⟨_, rfl⟩
  | updateCapacity read write => exact ⟨_, rfl⟩
  | updateParameters parameters => cases ha
  | diagnostics => cases ha
  | close => cases ha

/-- An action that needs the table is refused if binding is. -/
theorem refuses_perform {a : Action} (hneeds : a.needsTable = true) (ha : a ≠ .use .destroy)
    (hm : Store.IsUnbound m) (hholds : h.state.Holds s.table items capacity)
    (hbound : s.Refuses items capacity s.bound m h) :
    s.Refuses items capacity (a.perform s visits) m h := by
  cases hstarts : a.startsBound with
  | true =>
    obtain ⟨f, hf⟩ := exists_perform_eq_bound_bind s visits hstarts
    rw [hf]
    exact hbound.bind f
  | false =>
    unfold startsBound at hstarts
    split at hstarts
    · exact absurd rfl ha
    · rename_i parameters
      show s.Refuses items capacity (s.updateParameters parameters) m h
      obtain ⟨e, he⟩ | ⟨read, write, hcapacity⟩ := s.updateParameters_cases parameters
      · rw [he]
        exact Store.refuses_throw hm hholds e
      · rw [hcapacity]
        exact hbound.bind _
    · rw [hneeds] at hstarts
      cases hstarts

/-- An action that does not need the table does nothing on a store that is not bound, and succeeds. -/
theorem endsAtOnce_of_not_needsTable (s : Store) (visits : Nat) {a : Action}
    (hneeds : a.needsTable = false)
    (hm : Store.isBound m = false) : ∃ r, (a.perform s visits).EndsAtOnce m (.ok r) := by
  cases a with
  | use u =>
    cases u with
    | move deletes creates =>
      cases deletes with
      | some paths => cases hneeds
      | none =>
        cases creates with
        | some es => cases hneeds
        | none => exact ⟨(), rfl⟩
    | _ => cases hneeds
  | updateCapacity read write => cases hneeds
  | updateParameters parameters => cases hneeds
  | diagnostics => exact Store.endsAtOnce_diagnostics hm
  | close => exact ⟨(), rfl⟩

end Action

/-! ## The life of a store -/

namespace Stage

variable {s : Store} {stage : Stage} {items : Items} {capacity : Capacity}

/-- A store that is not bound, on a service that has its table. -/
structure IsGated (s : Store) (items : Items) (capacity : Capacity) (stage : Stage) : Prop where
  unbound : Store.IsUnbound stage.memory
  holds : stage.host.state.Holds s.table items capacity

/-- An event leaves the store and its table as they were. It sends no requests but looks, and fails
exactly if it needs the table. -/
theorem IsGated.next (hstage : stage.IsGated s items capacity)
    (hversion : items.version? ≠ some Marker.current) {x : Event}
    (hx : x.action ≠ .use .destroy) :
    (next s stage x).IsGated s items capacity ∧
      (∀ y ∈ exchanges s stage x, s.settings.LooksOnly y) ∧
      ((∃ e, (act s stage x).outcome = .error e) ↔ x.action.needsTable = true) := by
  have hholds : (stage.hostFor x).state.Holds s.table items capacity := by
    rw [state_hostFor]
    exact hstage.holds
  have hcalm : (stage.hostFor x).state.IsCalm := by
    rw [state_hostFor]
    exact isCalm_serviceOf x
  cases hneeds : x.action.needsTable with
  | true =>
    have hbound := Store.refuses_bound hstage.unbound hholds hcalm hversion
    have hrefuses : s.Refuses items capacity (operation s stage x) stage.memory (stage.hostFor x) :=
      Action.refuses_perform hneeds hx hstage.unbound hholds hbound
    exact ⟨⟨hrefuses.unbound, hrefuses.holds⟩, hrefuses.looks, fun _ => rfl, fun _ => hrefuses.error⟩
  | false =>
    have hnot : Store.isBound stage.memory = false := by
      rw [Store.isBound, hstage.unbound.1]
      rfl
    obtain ⟨r, hends⟩ := Action.endsAtOnce_of_not_needsTable s _ hneeds hnot
    have hact : act s stage x = ⟨.ok r, stage.memory, stage.hostFor x⟩ := hends.run ..
    have hexchanges : exchanges s stage x = [] := hends.exchanges ..
    refine ⟨⟨?_, ?_⟩, ?_, ?_⟩
    · rw [Stage.next, hact]
      exact hstage.unbound
    · rw [Stage.next, hact]
      exact hholds
    · rw [hexchanges]
      exact fun _ hy => absurd hy List.not_mem_nil
    · rw [hact]
      exact ⟨fun ⟨_, he⟩ => (nomatch he), nofun⟩

/-- **The version gate.** Suppose the table of a store that is not bound yet holds no marker with the
current version. Whatever the store is asked for, but for destroying the table, and whatever is
throttled or fails, the table stays there, with its items and its capacity. Any further event sends
only requests that look at the table or for its marker, and it fails exactly if it needs the table. -/
theorem gated_live (hunbound : Store.IsUnbound stage.memory)
    (hholds : stage.host.state.Holds s.table items capacity)
    (hversion : items.version? ≠ some Marker.current) (events : List Event)
    (hevents : ∀ x ∈ events, x.action ≠ .use .destroy) :
    (live s stage events).host.state.Holds s.table items capacity ∧
      ∀ x : Event, x.action ≠ .use .destroy →
        (∀ y ∈ exchanges s (live s stage events) x,
          y.1 = .describeTable s.table ∨ y.1 = .getItem s.table Marker.key) ∧
        ((∃ e, (act s (live s stage events) x).outcome = .error e) ↔
          x.action.needsTable = true) := by
  have hfirst : stage.IsGated s items capacity := ⟨hunbound, hholds⟩
  have hgated : (live s stage events).IsGated s items capacity :=
    live_induction hfirst fun stage hstage x hx => (hstage.next hversion (hevents x hx)).1
  exact ⟨hgated.holds, fun x hx => (hgated.next hversion hx).2⟩

end Stage

/-! ## A sample -/

namespace Sample

/-- The items of a table with a marker of another version and with an item of its own. -/
def foreignItems : Items :=
  Items.applyAll ∅ [.put (Marker.item 99 1234), .put (Item.bare ⟨"/b", "d"⟩)]

/-- The table, which is being changed. -/
def foreignTable : Service.Table := ⟨"UPDATING", {}, ⟨5, 6⟩, .never, foreignItems⟩

/-- A service with that table, for a store that has not used it yet. -/
def foreignStage : Stage :=
  ⟨{}, { host with state := host.state.setTable store.table foreignTable }⟩

/-- The store is asked to store a file, to change the capacity, and to move nothing, while requests
are throttled and fail, and is closed in between. -/
def foreignEvents : List Event :=
  [{ action := .use (.put (.file file 1 2 3 "o")), now := 6, throttles := 2, faults := 1 },
    { action := .updateCapacity (some 7) none, now := 7 }, { action := .close, now := 8 },
    { action := .use (.move none none), now := 9, throttles := 1 }]

/-- A deletion, with a request that is throttled. -/
def foreignDelete : Event := { action := .use (.delete file), now := 10, throttles := 1 }

/-- After all that the table is as it was, and the deletion sends nothing but looks, and fails. -/
theorem gated_live_foreign :
    foreignItems.version? = some 99 ∧
      (Stage.live store foreignStage foreignEvents).host.state.Holds store.table foreignItems ⟨5, 6⟩ ∧
      (∀ y ∈ Stage.exchanges store (Stage.live store foreignStage foreignEvents) foreignDelete,
        y.1 = .describeTable store.table ∨ y.1 = .getItem store.table Marker.key) ∧
      ∃ e, (Stage.act store (Stage.live store foreignStage foreignEvents) foreignDelete).outcome =
        .error e := by
  have hversion : foreignItems.version? = some 99 := by decide +kernel
  have hunbound : Store.IsUnbound foreignStage.memory := ⟨rfl, rfl⟩
  have hholds : foreignStage.host.state.Holds store.table foreignItems ⟨5, 6⟩ :=
    ⟨foreignTable, by simp [foreignStage, Service.setTable], rfl, rfl⟩
  obtain ⟨hkept, hlater⟩ := Stage.gated_live hunbound hholds (by rw [hversion]; decide)
    foreignEvents (by simp [foreignEvents])
  obtain ⟨hlooks, hfails⟩ := hlater foreignDelete (by rintro ⟨⟩)
  exact ⟨hversion, hkept, hlooks, hfails.2 rfl⟩

end Sample

end TableTree
