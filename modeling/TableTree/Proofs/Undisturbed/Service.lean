import TableTree.Proofs.Attempts
import TableTree.Proofs.OneTable

/-!
# A service for which nothing is planned

Beside a service with throttles, failures and leftovers to come stands one with the same tables for
which nothing is planned. What the first answers, the second answers as well, unless the plan makes
the first fail, which then keeps its tables. A batch that the first takes in part, the second takes
whole, so that it is ahead by the writes that were left out.

Results:

* `Service.Undisturbed`: a service beside another one for which nothing is planned.
* `Service.Undisturbed.answer_control`: requests about tables are answered alike.
* `Service.Undisturbed.answer_read`: a read leaves both as they were.
* `Service.Undisturbed.tried_answer`: any request but a batch is answered alike or fails for now.
* `Service.Owes.tried_answer`, `Service.answer_batchWrite_of_plan_eq`: what is left out of a batch is
  all that the first service lacks.
-/

namespace TableTree

variable {α : Type}

/-- Whether a request is about a table itself. The plan never makes it fail. -/
def Request.isControl : Request → Bool
  | .describeTable _ | .createTable .. | .deleteTable _ | .updateTable .. => true
  | _ => false

/-- Whether a request reads items. -/
def Request.isRead : Request → Bool
  | .getItem .. | .query .. | .scan .. => true
  | _ => false

/-- Whether a request is a batch of writes. -/
def Request.isBatch : Request → Bool
  | .batchWrite .. => true
  | _ => false

namespace Service

/-! ## The core of a service -/

/-- A service without the throttles, failures and leftovers that are to come, and without the counts
of its calls. -/
def core (s : Service) : Service :=
  { s with
    plan := { createRaces := s.plan.createRaces, lateWrites := s.plan.lateWrites }
    counts := {} }

theorem core_count (s : Service) (r : Request) : (s.count r).core = s.core := by
  cases r <;> rfl

theorem core_takeFault (s : Service) : s.takeFault.2.core = s.core := by
  unfold takeFault
  split
  · rfl
  split <;> rfl

theorem core_takeLeftover (s : Service) (call : Nat) : (s.takeLeftover call).2.core = s.core := rfl

theorem core_mapItems (s : Service) (name : String) (f : Items → Items) :
    (s.mapItems name f).core = s.core.mapItems name f := by
  have htables : s.core.tables = s.tables := rfl
  cases h : s.tables[name]? with
  | none => simp [mapItems, h, htables]
  | some t =>
    simp only [mapItems, htables, h]
    rfl

theorem plan_mapItems (s : Service) (name : String) (f : Items → Items) :
    (s.mapItems name f).plan = s.plan := by
  unfold mapItems
  split <;> rfl

/-- A result on the service `s` that depends on its core only, as the result on the core shows. It is
an error only for good, and plans nothing anew. -/
structure FromCore (s : Service) (result coreResult : Except ServiceError α × Service) : Prop where
  core_eq : coreResult = (result.1, result.2.core)
  isPermanent : ∀ e, result.1 = .error e → e.isPermanent = true
  plan_eq : s.plan = {} → result.2.plan = {}

theorem fromCore_describeTable (s : Service) (name : String) :
    FromCore s (s.describeTable name) (s.core.describeTable name) := by
  unfold describeTable
  rw [show s.core.tables = s.tables from rfl]
  split
  · exact ⟨rfl, fun e he => by cases he; rfl, id⟩
  · exact ⟨rfl, nofun, id⟩

theorem fromCore_createTable (s : Service) (name : String) (keySchema : KeySchema)
    (capacity : Capacity) :
    FromCore s (s.createTable name keySchema capacity) (s.core.createTable name keySchema capacity) := by
  have hplan : s.plan = {} → { s.plan with createRaces := s.plan.createRaces - 1 } = {} := by
    intro h
    rw [h]
    rfl
  unfold createTable
  rw [show s.core.tables = s.tables from rfl]
  dsimp only
  split
  · exact ⟨rfl, fun e he => by cases he; rfl, hplan⟩
  · refine ⟨rfl, ?_, hplan⟩
    intro e he
    dsimp only at he
    split at he <;> cases he
    rfl

theorem fromCore_deleteTable (s : Service) (name : String) :
    FromCore s (s.deleteTable name) (s.core.deleteTable name) := by
  unfold deleteTable
  rw [show s.core.tables = s.tables from rfl]
  split
  · exact ⟨rfl, nofun, id⟩
  · exact ⟨rfl, fun e he => by cases he; rfl, id⟩

theorem fromCore_updateTable (s : Service) (name : String) (capacity : Capacity) :
    FromCore s (s.updateTable name capacity) (s.core.updateTable name capacity) := by
  unfold updateTable
  rw [show s.core.tables = s.tables from rfl]
  split
  · exact ⟨rfl, fun e he => by cases he; rfl, id⟩
  · split
    · exact ⟨rfl, fun e he => by cases he; rfl, id⟩
    · exact ⟨rfl, nofun, id⟩

theorem fromCore_writeItems (s : Service) (name : String) (f : Items → Items) :
    FromCore s (s.writeItems name f) (s.core.writeItems name f) := by
  unfold writeItems
  rw [show s.core.items? name = s.items? name from rfl]
  split
  · exact ⟨rfl, fun e he => by cases he; rfl, id⟩
  · exact ⟨by rw [core_mapItems], nofun, fun h => by rw [plan_mapItems, h]⟩

/-- Requests about tables are answered from the core. -/
theorem fromCore_serve {r : Request} (hr : r.isControl = true) (s : Service) :
    FromCore s (serve r s) (serve r s.core) := by
  cases r with
  | describeTable name => exact s.fromCore_describeTable name
  | createTable name keySchema capacity => exact s.fromCore_createTable name keySchema capacity
  | deleteTable name => exact s.fromCore_deleteTable name
  | updateTable name capacity => exact s.fromCore_updateTable name capacity
  | _ => cases hr

/-! ## Beside a service for which nothing is planned -/

/-- `s'` has the core of `s`, and nothing is planned for it. How often each call was made does not
matter. -/
structure Undisturbed (s s' : Service) : Prop where
  core_eq : s'.core = s.core
  plan_eq : s'.plan = {}

/-- Results that are alike: the same answer, an error only for good, and services one of which is the
other one undisturbed. -/
structure Alike (result result' : Except ServiceError α × Service) : Prop where
  answer_eq : result'.1 = result.1
  isPermanent : ∀ e, result.1 = .error e → e.isPermanent = true
  undisturbed : result.2.Undisturbed result'.2

theorem Alike.tried {result result' : Except ServiceError α × Service} (h : Alike result result')
    (I : Service → Prop) :
    Tried (fun a k => result'.1 = .ok a ∧ k.Undisturbed result'.2) I result := by
  refine .of (fun a ha => ⟨h.answer_eq.trans ha, h.undisturbed⟩) fun e he hnow => ?_
  rw [h.isPermanent e he] at hnow
  cases hnow

namespace Undisturbed

variable {s s' k k' : Service}

theorem of_core (h : s.Undisturbed s') (hk : k.core = s.core) : k.Undisturbed s' :=
  ⟨h.core_eq.trans hk.symm, h.plan_eq⟩

theorem of_core_right (h : s.Undisturbed s') (hk : k'.core = s'.core) (hplan : k'.plan = {}) :
    s.Undisturbed k' :=
  ⟨hk.trans h.core_eq, hplan⟩

theorem tables_eq (h : s.Undisturbed s') : s'.tables = s.tables := congrArg (·.tables) h.core_eq

theorem items?_eq (h : s.Undisturbed s') (name : String) : s'.items? name = s.items? name := by
  rw [items?, items?, h.tables_eq]

theorem isCalm (h : s.Undisturbed s') : s.IsCalm := by
  have hplan := congrArg (Plan.lateWrites ∘ plan) h.core_eq
  exact hplan.symm.trans (congrArg Plan.lateWrites h.plan_eq)

theorem isCalm_right (h : s.Undisturbed s') : s'.IsCalm := congrArg Plan.lateWrites h.plan_eq

theorem count (h : s.Undisturbed s') (r : Request) : (s.count r).Undisturbed (s'.count r) :=
  (h.of_core (s.core_count r)).of_core_right (s'.core_count r) (by cases r <;> exact h.plan_eq)

theorem mapItems (h : s.Undisturbed s') (name : String) (f : Items → Items) :
    (s.mapItems name f).Undisturbed (s'.mapItems name f) := by
  exact ⟨by rw [core_mapItems, core_mapItems, h.core_eq], by rw [plan_mapItems, h.plan_eq]⟩

theorem readItems_eq (h : s.Undisturbed s') (name : String) (f : Items → α) :
    s'.readItems name f = s.readItems name f := by
  rw [readItems, readItems, h.items?_eq]

/-- What depends on the core only is alike. -/
theorem alike {serve : Service → Except ServiceError α × Service} (h : s.Undisturbed s')
    (hserve : ∀ s, FromCore s (serve s) (serve s.core)) : Alike (serve s) (serve s') := by
  have heq := (hserve s).core_eq
  rw [← h.core_eq, (hserve s').core_eq, Prod.mk.injEq] at heq
  exact ⟨heq.1, (hserve s).isPermanent, heq.2, (hserve s').plan_eq h.plan_eq⟩

/-- Nothing makes a request to the service fail for which nothing is planned. -/
theorem unlessFault_eq (h : s.Undisturbed s') (serve : Service → Except ServiceError α × Service) :
    s'.unlessFault serve = serve s' := by
  have hplan : s'.takeFault = (none, s') := by
    unfold takeFault
    rw [h.plan_eq]
    rfl
  unfold unlessFault
  rw [hplan]

/-- Requests about tables are answered alike. -/
theorem answer_control (h : s.Undisturbed s') {r : Request} (hr : r.isControl = true) :
    Alike (s.answer r) (s'.answer r) :=
  (h.count r).alike (fromCore_serve hr)

/-- What is read from a service is read from the undisturbed one as well, if it does not fail, and
both stay as they were. -/
theorem unlessFault_read (h : s.Undisturbed s')
    {serve : Service → Except ServiceError α × Service} (answer_eq : (serve s').1 = (serve s).1)
    (same : (serve s).2.core = s.core) (same' : (serve s').2 = s') :
    (s.unlessFault serve).2.Undisturbed s' ∧ s.Undisturbed (s'.unlessFault serve).2 ∧
      ∀ a, (s.unlessFault serve).1 = .ok a → (s'.unlessFault serve).1 = .ok a := by
  rw [h.unlessFault_eq, same']
  rcases s.unlessFault_cases serve with heq | ⟨e, heq, -⟩
  · rw [heq, answer_eq]
    exact ⟨h.of_core same, h, fun _ => id⟩
  · rw [heq]
    exact ⟨h.of_core s.core_takeFault, h, nofun⟩

/-- A read leaves both services as they were, and what is read from the first is read from the
undisturbed one as well. -/
theorem answer_read (h : s.Undisturbed s') {r : Request} (hr : r.isRead = true) :
    (s.answer r).2.Undisturbed s' ∧ s.Undisturbed (s'.answer r).2 ∧
      ∀ a, (s.answer r).1 = .ok a → (s'.answer r).1 = .ok a := by
  have hcount := h.count r
  have hcore := s.core_count r
  suffices hserve : (serve r (s.count r)).2.Undisturbed (s'.count r) ∧
      (s.count r).Undisturbed (serve r (s'.count r)).2 ∧
      ∀ a, (serve r (s.count r)).1 = .ok a → (serve r (s'.count r)).1 = .ok a by
    obtain ⟨hleft, hright, hanswer⟩ := hserve
    exact ⟨hleft.of_core_right (s'.core_count r).symm h.plan_eq, hright.of_core hcore.symm, hanswer⟩
  cases r with
  | getItem name key =>
    exact hcount.unlessFault_read (hcount.readItems_eq name _)
      (congrArg core (serveRead_eq hcount.isCalm)) (serveRead_eq hcount.isCalm_right)
  | query name parent filter =>
    exact hcount.unlessFault_read (hcount.readItems_eq name _) rfl rfl
  | scan name filter => exact hcount.unlessFault_read (hcount.readItems_eq name _) rfl rfl
  | _ => cases hr

/-- A single write is done to both services, or it fails for now. -/
theorem tried_unlessFault (h : s.Undisturbed s') {serve : Service → Except ServiceError α × Service}
    (hserve : ∀ s, FromCore s (serve s) (serve s.core)) :
    Tried (fun a k => (s'.unlessFault serve).1 = .ok a ∧ k.Undisturbed (s'.unlessFault serve).2)
      (·.Undisturbed s') (s.unlessFault serve) := by
  rw [h.unlessFault_eq]
  rcases s.unlessFault_cases serve with heq | ⟨e, heq, -⟩
  · rw [heq]
    exact (h.alike hserve).tried _
  · rw [heq]
    exact fun _ => h.of_core s.core_takeFault

/-- Any request but a batch is answered alike, or it fails for now and leaves the service as it
was. -/
theorem tried_answer (h : s.Undisturbed s') {r : Request} (hr : r.isBatch = false) :
    Tried (fun a k => (s'.answer r).1 = .ok a ∧ k.Undisturbed (s'.answer r).2) (·.Undisturbed s')
      (s.answer r) := by
  have hread (hr : r.isRead = true) :
      Tried (fun a k => (s'.answer r).1 = .ok a ∧ k.Undisturbed (s'.answer r).2) (·.Undisturbed s')
        (s.answer r) := by
    obtain ⟨hleft, hright, hanswer⟩ := h.answer_read hr
    have hafter := hright.of_core (hleft.core_eq.symm.trans h.core_eq)
    exact .of (fun a ha => ⟨hanswer a ha, hafter⟩) fun _ _ _ => hleft
  have hwrite (name : String) (f : Items → Items) :=
    ((h.count r).tried_unlessFault fun s => s.fromCore_writeItems name f).imp (fun _ _ => id)
      fun _ hk => hk.of_core_right (s'.core_count r).symm h.plan_eq
  cases r with
  | describeTable name => exact (h.answer_control rfl).tried _
  | createTable name keySchema capacity => exact (h.answer_control rfl).tried _
  | deleteTable name => exact (h.answer_control rfl).tried _
  | updateTable name capacity => exact (h.answer_control rfl).tried _
  | getItem name key => exact hread rfl
  | query name parent filter => exact hread rfl
  | scan name filter => exact hread rfl
  | putItem name item => exact hwrite name (·.apply (.put item))
  | deleteItem name key => exact hwrite name (·.apply (.delete key))
  | batchWrite name writes => cases hr

end Undisturbed

/-! ## Batches -/

theorem mapItems_mapItems (s : Service) (name : String) (f g : Items → Items) :
    (s.mapItems name f).mapItems name g = s.mapItems name (g ∘ f) := by
  cases h : s.tables[name]? with
  | none => simp [mapItems, h]
  | some t =>
    have hinsert (t' t'' : Table) :
        (s.tables.insert name t').insert name t'' = s.tables.insert name t'' := by
      ext1 name'
      by_cases hn : name = name' <;> simp [Std.ExtTreeMap.getElem?_insert, hn]
    simp [mapItems, h, setTable, hinsert]

theorem mapItems_id (s : Service) (name : String) : s.mapItems name id = s := by
  cases h : s.tables[name]? with
  | none => simp [mapItems, h]
  | some t =>
    have hinsert : s.tables.insert name t = s.tables := by
      ext1 name'
      by_cases hn : name = name'
      · subst hn
        simp [h]
      · simp [Std.ExtTreeMap.getElem?_insert, hn]
    simp [mapItems, h, setTable, hinsert]

/-- `s'` is ahead of the service `s` by writes for the table `t` that are owed to `s`. -/
def Owes (t : String) (owed : List Write) (s s' : Service) : Prop :=
  (s.mapItems t (·.applyAll owed)).Undisturbed s'

variable {s s' k : Service} {t : String} {writes : List Write}

theorem owes_nil : Owes t [] s s' ↔ s.Undisturbed s' := by
  show (s.mapItems t id).Undisturbed s' ↔ _
  rw [mapItems_id]

theorem Owes.of_core {owed : List Write} (h : Owes t owed s s') (hk : k.core = s.core) :
    Owes t owed k s' :=
  Undisturbed.of_core h (by rw [core_mapItems, core_mapItems, hk])

theorem isSome_items?_mapItems (s : Service) (name : String) (f : Items → Items) (t : String) :
    ((s.mapItems name f).items? t).isSome = (s.items? t).isSome := by
  rw [items?_mapItems]
  split
  · exact Option.isSome_map
  · rfl

/-- A batch of all that is owed, if it is taken, leaves what is left out of it; or it fails for
now. -/
theorem Owes.tried_answer (h : Owes t writes s s') :
    Tried (fun left k => s'.TakesBatch t writes ∧ Owes t left k s') (Owes t writes · s')
      (s.answer (.batchWrite t writes)) := by
  have hcount := h.of_core (s.core_count (.batchWrite t writes))
  show Tried _ _ (unlessFault (s.count (.batchWrite t writes)) _)
  rcases unlessFault_cases (s.count (.batchWrite t writes))
    fun s => s.batchWrite (s.counts.batchWrite - 1) t writes with heq | ⟨e, heq, -⟩
  · rw [heq]
    by_cases htakes : (s.count (.batchWrite t writes)).TakesBatch t writes
    · rw [htakes.batchWrite_eq]
      refine ⟨htakes.of_isSome_items? ?_, ?_⟩
      · rw [hcount.items?_eq, isSome_items?_mapItems]
      refine Undisturbed.of_core hcount ?_
      rw [mapItems_mapItems, core_mapItems, core_mapItems, core_takeLeftover]
      congr 1
      funext items
      exact (Items.applyAll_append ..).symm.trans (by rw [List.take_append_drop])
    · obtain ⟨e, k, heq', hfinal, -⟩ := exists_batchWrite_eq_error htakes
        ((s.count (.batchWrite t writes)).counts.batchWrite - 1)
      rw [heq']
      exact fun hnow => absurd (hnow.symm.trans hfinal) Bool.false_ne_true
  · rw [heq]
    exact fun _ => hcount.of_core (core_takeFault _)

/-- A batch that a service takes for which nothing is planned is taken whole. -/
theorem answer_batchWrite_of_plan_eq (hplan : s.plan = {}) (htakes : s.TakesBatch t writes) :
    (s.answer (.batchWrite t writes)).1 = .ok [] ∧
      (s.answer (.batchWrite t writes)).2.core = (s.mapItems t (·.applyAll writes)).core ∧
      (s.answer (.batchWrite t writes)).2.plan = {} := by
  have hself : s.Undisturbed s := ⟨rfl, hplan⟩
  have hcount := hself.count (.batchWrite t writes)
  replace htakes := htakes.of_isSome_items?
    (congrArg _ ((s.sameTables_count (.batchWrite t writes)).items? t))
  have hserved (call : Nat) :
      (s.count (.batchWrite t writes)).served call writes = writes.length := by
    simp [served, takeLeftover, hcount.plan_eq]
  show (unlessFault (s.count (.batchWrite t writes)) _).1 = _ ∧
    (unlessFault (s.count (.batchWrite t writes)) _).2.core = _ ∧
    (unlessFault (s.count (.batchWrite t writes)) _).2.plan = _
  rw [hcount.unlessFault_eq, htakes.batchWrite_eq, hserved, List.drop_length, List.take_length]
  refine ⟨rfl, ?_, ?_⟩
  · rw [core_mapItems, core_mapItems, core_takeLeftover, core_count]
  · rw [plan_mapItems]
    simp [takeLeftover, hcount.plan_eq]

end Service

end TableTree
