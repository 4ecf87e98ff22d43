import TableTree.Proofs.Retry
import TableTree.Service.Script

/-!
# One table of the service

Seen from one of its tables, the service answers a request for the table from its items, or refuses
it and leaves them alone; it may take a batch in part, from the front. Requests for other tables do
not touch the items. When each call is throttled, fails, or is cut short is left open, so what holds
in this world holds for every plan without late writes.

Results:

* `tableWorld`: the service seen from the items of one table.
* `Service.within_tableWorld`: the simulated service stays within that world.
-/

namespace TableTree

variable {α ε : Type}

/-- The table that a request is about. -/
def Request.table : Request → String
  | .describeTable t => t
  | .createTable t _ _ => t
  | .deleteTable t => t
  | .updateTable t _ => t
  | .getItem t _ => t
  | .putItem t _ => t
  | .deleteItem t _ => t
  | .query t _ _ => t
  | .scan t _ => t
  | .batchWrite t _ => t

/-- The items are read, and the answer is `f` of them. -/
def Reads (st : Option Items) (f : Items → α) : Except ε α → Option Items → Prop :=
  EndsIn (fun a st' => st' = st ∧ ∃ items, st = some items ∧ a = f items) (· = st)

/-- The items are changed by `f`. -/
def Changes (st : Option Items) (f : Items → Items) :
    Except ε Unit → Option Items → Prop :=
  EndsIn (fun _ st' => ∃ items, st = some items ∧ st' = some (f items)) (· = st)

/-- What may become of a request for a table, from the items of the table before and after it. There
are none while the table is missing. -/
def Served : (r : Request) → Option Items → r.Answer → Option Items → Prop
  | .describeTable _, st =>
    EndsIn (fun _ st' => st' = st ∧ st ≠ none) (fun st' => st' = st ∧ st = none)
  | .createTable .., st =>
    EndsIn (fun _ st' => st = none ∧ st' = some ∅) (fun st' => st' = st ∨ st = none ∧ st' = some ∅)
  | .deleteTable _, st => EndsIn (fun _ st' => st' = none) (· = st)
  | .updateTable .., st => EndsIn (fun _ st' => st' = st) (· = st)
  | .getItem _ key, st => Reads st (·.item? key)
  | .putItem _ item, st => Changes st (·.apply (.put item))
  | .deleteItem _ key, st => Changes st (·.apply (.delete key))
  | .query _ parent filter, st =>
    Reads st fun items =>
      Items.select (items.all.filter fun item => item.key.parent = parent) filter
  | .scan _ filter, st => Reads st fun items => Items.select items.all filter
  | .batchWrite _ writes, st =>
    EndsIn (fun left st' => ∃ items k, st = some items ∧ left = writes.drop k ∧
      st' = some (items.applyAll (writes.take k))) (· = st)

/-- The service seen from the items of the table `t`, while the clock shows `time`. -/
def tableWorld (t : String) (time : Int64) : World (Option Items) where
  answers r st answer st' := if r.table = t then Served r st answer st' else st' = st
  shows now := now = time

/-- A request for the table is served from its items. -/
theorem served_of_answers {t : String} {time : Int64} {r : Request} {answer : r.Answer}
    {st st' : Option Items} (hr : r.table = t)
    (h : (tableWorld t time).answers r st answer st') : Served r st answer st' :=
  (if_pos hr).mp h

namespace Service

/-- Nobody else is going to write. -/
def IsCalm (s : Service) : Prop := s.plan.lateWrites = []

/-! ## What each answer leaves of the tables -/

/-- Tables and late writes are what they were in another state. -/
structure SameTables (s s' : Service) : Prop where
  tables : s'.tables = s.tables
  lateWrites : s'.plan.lateWrites = s.plan.lateWrites

theorem SameTables.refl (s : Service) : SameTables s s := ⟨rfl, rfl⟩

theorem SameTables.items? {s s' : Service} (h : SameTables s s') (t : String) :
    s'.items? t = s.items? t := by
  rw [Service.items?, Service.items?, h.tables]

theorem SameTables.isCalm {s s' : Service} (h : SameTables s s') (hs : s.IsCalm) : s'.IsCalm :=
  h.lateWrites.trans hs

theorem sameTables_count (s : Service) (r : Request) : SameTables s (s.count r) := by
  cases r <;> exact ⟨rfl, rfl⟩

theorem sameTables_takeFault (s : Service) : SameTables s s.takeFault.2 := by
  unfold takeFault
  split
  · exact ⟨rfl, rfl⟩
  · split <;> exact ⟨rfl, rfl⟩

/-- A read has no effect when nobody else is going to write. -/
theorem serveRead_eq {s : Service} (h : s.IsCalm) : s.serveRead = s := by
  have hplan : { s.plan with lateWrites := [] } = s.plan := by
    rw [← show s.plan.lateWrites = [] from h]
  have hw : s.plan.lateWrites = [] := h
  simp [serveRead, hw, hplan]

theorem sameTables_takeLeftover (s : Service) (call : Nat) :
    SameTables s (s.takeLeftover call).2 := ⟨rfl, rfl⟩

theorem items?_setTable (s : Service) (name t : String) (table : Table) :
    (s.setTable name table).items? t = if name = t then some table.items else s.items? t := by
  simp only [Service.items?, setTable, Std.ExtTreeMap.getElem?_insert,
    Std.LawfulEqOrd.compare_eq_iff_eq]
  split <;> rfl

theorem items?_mapItems (s : Service) (name t : String) (f : Items → Items) :
    (s.mapItems name f).items? t = if name = t then (s.items? t).map f else s.items? t := by
  unfold mapItems
  split
  · rename_i h
    split
    · rename_i hn
      subst hn
      simp [Service.items?, h]
    · rfl
  · rename_i table h
    rw [items?_setTable]
    split
    · rename_i hn
      subst hn
      simp [Service.items?, h]
    · rfl

theorem isCalm_mapItems {s : Service} (h : s.IsCalm) (name : String) (f : Items → Items) :
    (s.mapItems name f).IsCalm := by
  unfold mapItems
  split <;> exact h

/-- A look at a table leaves its items alone. -/
theorem Table.items_look (table : Table) : table.look.items = table.items := by
  unfold look
  split <;> rfl

theorem items?_setTable_look {s : Service} {name : String} {table : Table}
    (h : s.tables[name]? = some table) (t : String) :
    (s.setTable name table.look).items? t = s.items? t := by
  rw [items?_setTable, table.items_look]
  split
  · rename_i hn
    subst hn
    simp [Service.items?, h]
  · rfl

/-! ## The simulated service in the world of one table -/

/-- What a request may leave: an answer and a service that the world of the table `t` allows, and no
late writes. -/
def Fits (t : String) (r : Request) (s : Service) (result : r.Answer × Service) : Prop :=
  (if r.table = t then Served r (s.items? t) result.1 (result.2.items? t)
    else result.2.items? t = s.items? t) ∧ result.2.IsCalm

theorem Fits.of {t : String} {r : Request} {s : Service} {result : r.Answer × Service}
    (own : r.table = t → Served r (s.items? t) result.1 (result.2.items? t))
    (other : r.table ≠ t → result.2.items? t = s.items? t) (calm : result.2.IsCalm) :
    Fits t r s result := by
  refine ⟨?_, calm⟩
  split
  · rename_i h
    exact own h
  · rename_i h
    exact other h

/-- What the plan makes a request fail with is over at some time. -/
theorem takeFault_cases (s : Service) :
    s.takeFault = (none, s) ∨
      ∃ e, s.takeFault = (some e, s.takeFault.2) ∧ e.isPermanent = false := by
  unfold takeFault
  split
  · exact .inr ⟨_, rfl, rfl⟩
  split
  · exact .inr ⟨_, rfl, rfl⟩
  · exact .inl rfl

/-- A request is served, or it fails as planned, for now. -/
theorem unlessFault_cases {α : Type} (s : Service)
    (serve : Service → Except ServiceError α × Service) :
    s.unlessFault serve = serve s ∨
      ∃ e, s.unlessFault serve = (.error e, s.takeFault.2) ∧ e.isPermanent = false := by
  unfold unlessFault
  rcases s.takeFault_cases with heq | ⟨e, heq, he⟩
  · rw [heq]
    exact .inl rfl
  · rw [heq]
    exact .inr ⟨e, rfl, he⟩

/-- A request that fails as planned fits, and so does one that is served. -/
theorem fits_unlessFault {t : String} {r : Request} {s : Service} (hs : s.IsCalm)
    {serve : Service → r.Answer × Service} (h : Fits t r s (serve s))
    (refused : ∀ e, Served r (s.items? t) (.error e) (s.items? t)) :
    Fits t r s (s.unlessFault serve) := by
  rcases s.unlessFault_cases serve with heq | ⟨e, heq, -⟩
  · rwa [heq]
  · rw [heq]
    refine ⟨?_, s.sameTables_takeFault.isCalm hs⟩
    dsimp only
    rw [s.sameTables_takeFault.items?]
    split
    · exact refused e
    · rfl

theorem fits_readItems {t name : String} {s s' : Service} {α : Type} (f : Items → α)
    (hs : s.IsCalm) (hsame : SameTables s s') :
    (if name = t then Reads (s.items? t) f (s.readItems name f) (s'.items? t)
      else s'.items? t = s.items? t) ∧ s'.IsCalm := by
  refine ⟨?_, hsame.isCalm hs⟩
  rw [hsame.items?]
  split
  · rename_i hn
    subst hn
    unfold readItems
    cases h : s.items? name with
    | none => exact rfl
    | some items => exact ⟨rfl, items, rfl, rfl⟩
  · rfl

theorem fits_writeItems (t name : String) {s : Service} (f : Items → Items) (hs : s.IsCalm) :
    (if name = t then
        Changes (s.items? t) f (s.writeItems name f).1 ((s.writeItems name f).2.items? t)
      else (s.writeItems name f).2.items? t = s.items? t) ∧ (s.writeItems name f).2.IsCalm := by
  unfold writeItems
  cases h : s.items? name with
  | none =>
    refine ⟨?_, hs⟩
    split <;> rfl
  | some items =>
    refine ⟨?_, isCalm_mapItems hs name f⟩
    dsimp only
    rw [items?_mapItems]
    split
    · rename_i hn
      subst hn
      rw [h]
      exact ⟨items, rfl, rfl⟩
    · rfl

/-- Whether the service takes a batch for a table: one of a fit size, with a single write for each
key, for a table that is there. -/
structure TakesBatch (s : Service) (name : String) (writes : List Write) : Prop where
  ne_nil : writes ≠ []
  length_le : writes.length ≤ maxBatch
  nodup : (writes.map Write.key).Nodup
  isSome_items? : (s.items? name).isSome

theorem TakesBatch.of_isSome_items? {s s' : Service} {name : String} {writes : List Write}
    (h : s.TakesBatch name writes) (heq : (s'.items? name).isSome = (s.items? name).isSome) :
    s'.TakesBatch name writes :=
  ⟨h.ne_nil, h.length_le, h.nodup, heq ▸ h.isSome_items?⟩

/-- The number of writes that the batch with a given number holds without those left out of it. -/
def served (s : Service) (call : Nat) (writes : List Write) : Nat :=
  writes.length - (s.takeLeftover call).1

/-- A batch that the service takes is done from the front, and the rest is left out. -/
theorem TakesBatch.batchWrite_eq {s : Service} {name : String} {writes : List Write}
    (h : s.TakesBatch name writes) (call : Nat) :
    s.batchWrite call name writes =
      (.ok (writes.drop (s.served call writes)),
        (s.takeLeftover call).2.mapItems name (·.applyAll (writes.take (s.served call writes)))) := by
  have hsize : ¬ (writes.length = 0 ∨ maxBatch < writes.length) := by
    have := List.length_pos_iff.2 h.ne_nil
    have := h.length_le
    omega
  obtain ⟨items, hitems⟩ := Option.isSome_iff_exists.1 h.isSome_items?
  have hitems' := ((s.sameTables_takeLeftover call).items? name).trans hitems
  unfold batchWrite
  rw [if_neg hsize, if_neg (Decidable.not_not.2 h.nodup)]
  simp only [writeItems, hitems']
  rfl

/-- Any other batch is refused for good. -/
theorem exists_batchWrite_eq_error {s : Service} {name : String} {writes : List Write}
    (h : ¬ s.TakesBatch name writes) (call : Nat) :
    ∃ e s', s.batchWrite call name writes = (.error e, s') ∧ e.isPermanent = true ∧
      SameTables s s' := by
  unfold batchWrite
  split
  · exact ⟨_, s, rfl, rfl, .refl s⟩
  split
  · exact ⟨_, s, rfl, rfl, .refl s⟩
  rename_i hsize hnodup
  have hnone : s.items? name = none := by
    refine Option.not_isSome_iff_eq_none.1 fun hsome => h ⟨?_, ?_, Decidable.not_not.1 hnodup, hsome⟩
    · rintro rfl
      exact hsize (.inl rfl)
    · omega
  have hnone' := ((s.sameTables_takeLeftover call).items? name).trans hnone
  simp only [writeItems, hnone']
  exact ⟨_, _, rfl, rfl, s.sameTables_takeLeftover call⟩

theorem served_batchWrite (s : Service) (call : Nat) (name : String) (writes : List Write) :
    Served (.batchWrite name writes) (s.items? name) (s.batchWrite call name writes).1
      ((s.batchWrite call name writes).2.items? name) := by
  by_cases htakes : s.TakesBatch name writes
  · obtain ⟨items, hitems⟩ := Option.isSome_iff_exists.1 htakes.isSome_items?
    rw [htakes.batchWrite_eq call]
    refine ⟨items, s.served call writes, hitems, rfl, ?_⟩
    rw [items?_mapItems, if_pos rfl, (s.sameTables_takeLeftover call).items?, hitems]
    rfl
  · obtain ⟨e, s', heq, -, hsame⟩ := exists_batchWrite_eq_error htakes call
    rw [heq]
    exact hsame.items? name

/-- The same of a request for a batch, whatever is going to be written by others. -/
theorem served_answer_batchWrite (s : Service) (name : String) (writes : List Write) :
    Served (.batchWrite name writes) (s.items? name) (s.answer (.batchWrite name writes)).1
      ((s.answer (.batchWrite name writes)).2.items? name) := by
  have hcount := s.sameTables_count (.batchWrite name writes)
  rw [← hcount.items? name]
  show Served _ _ (unlessFault _ _).1 ((unlessFault _ _).2.items? name)
  rcases unlessFault_cases (s.count (.batchWrite name writes))
    fun s => s.batchWrite (s.counts.batchWrite - 1) name writes with heq | ⟨e, heq, -⟩
  · rw [heq]
    exact served_batchWrite ..
  · rw [heq]
    exact (sameTables_takeFault _).items? name

theorem fits_batchWrite {t name : String} {s : Service} (call : Nat) (writes : List Write)
    (hs : s.IsCalm) :
    Fits t (.batchWrite name writes) s (s.batchWrite call name writes) := by
  by_cases htakes : s.TakesBatch name writes
  · refine .of ?_ (fun hn => ?_) ?_
    · rintro rfl
      exact served_batchWrite s call name writes
    · rw [htakes.batchWrite_eq call]
      exact (items?_mapItems ..).trans (if_neg hn)
    · rw [htakes.batchWrite_eq call]
      exact isCalm_mapItems ((s.sameTables_takeLeftover call).isCalm hs) _ _
  · obtain ⟨e, s', heq, -, hsame⟩ := exists_batchWrite_eq_error htakes call
    rw [heq]
    refine ⟨?_, hsame.isCalm hs⟩
    dsimp only
    rw [hsame.items?]
    split <;> rfl

theorem fits_describeTable {t name : String} {s : Service} (hs : s.IsCalm) :
    Fits t (.describeTable name) s (s.describeTable name) := by
  unfold describeTable
  cases h : s.tables[name]? with
  | none =>
    refine .of ?_ (fun _ => rfl) hs
    rintro rfl
    exact ⟨rfl, by simp [Service.items?, Request.table, h]⟩
  | some table =>
    refine .of ?_ (fun _ => items?_setTable_look h t) hs
    rintro rfl
    exact ⟨items?_setTable_look h name, by simp [Service.items?, Request.table, h]⟩

theorem fits_createTable {t name : String} {s : Service} (keySchema : KeySchema)
    (capacity : Capacity) (hs : s.IsCalm) :
    Fits t (.createTable name keySchema capacity) s (s.createTable name keySchema capacity) := by
  unfold createTable
  dsimp only
  split
  · exact .of (fun _ => .inl rfl) (fun _ => rfl) hs
  · rename_i hc
    refine .of ?_ (fun hn => (items?_setTable ..).trans (if_neg hn)) hs
    rintro rfl
    have hnone : s.items? name = none := by
      simpa [Service.items?, ← Std.ExtTreeMap.contains_eq_isSome_getElem?] using hc
    have hsome := (items?_setTable { s with plan := { s.plan with
      createRaces := s.plan.createRaces - 1 } } name name ⟨TableStatus.creating.text, keySchema,
        capacity, .ofNat s.activationLooks, ∅⟩).trans (if_pos rfl)
    dsimp only
    split
    · exact .inr ⟨hnone, hsome⟩
    · exact ⟨hnone, hsome⟩

theorem fits_deleteTable {t name : String} {s : Service} (hs : s.IsCalm) :
    Fits t (.deleteTable name) s (s.deleteTable name) := by
  unfold deleteTable
  split
  · refine .of ?_ (fun hn => ?_) hs
    · rintro rfl
      simp [Served, Request.table, Service.items?]
    · have hn : name ≠ t := hn
      simp [Service.items?, Std.ExtTreeMap.getElem?_erase, hn]
  · exact .of (fun _ => rfl) (fun _ => rfl) hs

theorem fits_updateTable {t name : String} {s : Service} (capacity : Capacity) (hs : s.IsCalm) :
    Fits t (.updateTable name capacity) s (s.updateTable name capacity) := by
  unfold updateTable
  cases h : s.tables[name]? with
  | none => exact .of (fun _ => rfl) (fun _ => rfl) hs
  | some table =>
    dsimp only
    split
    · exact .of (fun _ => rfl) (fun _ => rfl) hs
    · refine .of ?_ (fun hn => (items?_setTable ..).trans (if_neg hn)) hs
      rintro rfl
      refine (items?_setTable ..).trans ((if_pos rfl).trans ?_)
      simp [Service.items?, Request.table, h]

theorem fits_answer {t : String} {s : Service} (hs : s.IsCalm) (r : Request) :
    Fits t r s (s.answer r) := by
  have hsame := s.sameTables_count r
  have hcalm := hsame.isCalm hs
  suffices h : Fits t r (s.count r) (serve r (s.count r)) by
    rwa [Fits, hsame.items?] at h
  cases r with
  | describeTable name => exact fits_describeTable hcalm
  | createTable name keySchema capacity => exact fits_createTable keySchema capacity hcalm
  | deleteTable name => exact fits_deleteTable hcalm
  | updateTable name capacity => exact fits_updateTable capacity hcalm
  | getItem name key =>
    have hread : SameTables (s.count (.getItem name key)) (s.count (.getItem name key)).serveRead :=
      (serveRead_eq hcalm).symm ▸ .refl _
    exact fits_unlessFault hcalm (fits_readItems _ hcalm hread) fun _ => rfl
  | putItem name item => exact fits_unlessFault hcalm (fits_writeItems _ _ _ hcalm) fun _ => rfl
  | deleteItem name key => exact fits_unlessFault hcalm (fits_writeItems _ _ _ hcalm) fun _ => rfl
  | query name parent filter =>
    exact fits_unlessFault hcalm (fits_readItems _ hcalm (.refl _)) fun _ => rfl
  | scan name filter =>
    exact fits_unlessFault hcalm (fits_readItems _ hcalm (.refl _)) fun _ => rfl
  | batchWrite name writes =>
    exact fits_unlessFault hcalm (fits_batchWrite _ writes hcalm) fun _ => rfl

/-- The simulated service stays within the world of each of its tables, as long as nobody else is
going to write. -/
theorem within_tableWorld (t : String) (time : Int64) :
    Service.backend.Within (tableWorld t time) (·.items? t) IsCalm where
  answers r _ hs := (fits_answer hs r).1
  keeps r _ hs := (fits_answer (t := t) hs r).2

end Service

end TableTree
