import TableTree.Proofs.DistinctWrites
import TableTree.Proofs.Exchanges
import TableTree.Proofs.Rebinding
import TableTree.Proofs.Undisturbed.Service

/-!
# Calls on which nothing goes wrong

While nothing is planned to go wrong, the service grants every read from a table that is there, and
takes every batch of a fit size with different keys whole. So a store that is bound carries every
call that stores entries through, without a wait.

Results:

* `fairWorld`, `Service.within_fairWorld`: what a service answers for which nothing is planned.
* `Operation.Surely`: operations that succeed.
* `Store.surely_storeEntries`: writing entries of different paths succeeds.
* `Call.surely_perform`: so do the calls that store entries, on a store that is bound.
* `Call.outcome_perform_of_prepared`: so do they on one that can bind to its table.
-/

namespace TableTree

open Operation

variable {t : String} {time : Int64} {α β : Type}

/-! ## The service -/

/-- Whether a request is granted, of those that are if the table is there and nothing goes wrong. -/
def Request.Granted : (r : Request) → r.Answer → Prop
  | .getItem .., answer => ∃ found, answer = .ok found
  | .query .., answer => ∃ found, answer = .ok found
  | .batchWrite _ writes, answer =>
    writes ≠ [] → writes.length ≤ maxBatch → (writes.map Write.key).Nodup → answer = .ok []
  | _, _ => True

/-- The service seen from the items of the table `t` when nothing goes wrong. -/
def fairWorld (t : String) (time : Int64) : World (Option Items) where
  answers r st answer st' := (tableWorld t time).answers r st answer st' ∧
    (r.table = t → st ≠ none → r.Granted answer)
  shows now := now = time

namespace Service

variable {s : Service}

theorem plan_batchWrite (hplan : s.plan = {}) (call : Nat) (name : String) (writes : List Write) :
    (s.batchWrite call name writes).2.plan = {} := by
  have hleft : (s.takeLeftover call).2.plan = {} := by
    simp [takeLeftover, hplan]
  unfold batchWrite
  split
  · exact hplan
  split
  · exact hplan
  dsimp only
  unfold writeItems
  split
  · rename_i heq
    split at heq
    · cases heq
      exact hleft
    · cases heq
  · rename_i heq
    split at heq
    · cases heq
    · cases heq
      rw [plan_mapItems, hleft]

/-- No answer plans anything. -/
theorem plan_answer (hplan : s.plan = {}) (r : Request) : (s.answer r).2.plan = {} := by
  have hself : s.Undisturbed s := ⟨rfl, hplan⟩
  have hcount := hself.count r
  have hwrite (name : String) (f : Items → Items) :
      ((s.count r).unlessFault (·.writeItems name f)).2.plan = {} := by
    rw [hcount.unlessFault_eq]
    exact (hcount.alike fun s => s.fromCore_writeItems name f).undisturbed.plan_eq
  cases r with
  | describeTable name => exact (hself.answer_control rfl).undisturbed.plan_eq
  | createTable name keySchema capacity => exact (hself.answer_control rfl).undisturbed.plan_eq
  | deleteTable name => exact (hself.answer_control rfl).undisturbed.plan_eq
  | updateTable name capacity => exact (hself.answer_control rfl).undisturbed.plan_eq
  | getItem name key => exact (hself.answer_read rfl).2.1.plan_eq
  | query name parent filter => exact (hself.answer_read rfl).2.1.plan_eq
  | scan name filter => exact (hself.answer_read rfl).2.1.plan_eq
  | putItem name item => exact hwrite name _
  | deleteItem name key => exact hwrite name _
  | batchWrite name writes =>
    show (unlessFault _ _).2.plan = {}
    rw [hcount.unlessFault_eq]
    exact plan_batchWrite hcount.plan_eq _ name writes

/-- A service for which nothing is planned grants what it is asked for, if the table is there. -/
theorem granted_answer (hplan : s.plan = {}) (r : Request) (h : s.items? r.table ≠ none) :
    r.Granted (s.answer r).1 := by
  have hcount := Undisturbed.count (s := s) ⟨rfl, hplan⟩ r
  obtain ⟨items, hitems⟩ := Option.ne_none_iff_exists'.1 h
  have hitems' : (s.count r).items? r.table = some items :=
    ((s.sameTables_count r).items? r.table).trans hitems
  have hread {α : Type} (f : Items → α) : ∃ a, (s.count r).readItems r.table f = .ok a := by
    rw [readItems, hitems']
    exact ⟨_, rfl⟩
  cases r with
  | getItem name key =>
    show ∃ found, (unlessFault _ _).1 = .ok found
    rw [hcount.unlessFault_eq]
    exact hread _
  | query name parent filter =>
    show ∃ found, (unlessFault _ _).1 = .ok found
    rw [hcount.unlessFault_eq]
    exact hread _
  | batchWrite name writes =>
    intro hne hlength hnodup
    have htakes : s.TakesBatch name writes := ⟨hne, hlength, hnodup, Option.isSome_iff_ne_none.2 h⟩
    exact (answer_batchWrite_of_plan_eq hplan htakes).1
  | _ => trivial

theorem within_fairWorld (t : String) (time : Int64) :
    Service.backend.Within (fairWorld t time) (·.items? t) (·.plan = {}) where
  answers r s hplan := by
    have hcalm : s.IsCalm := congrArg Plan.lateWrites hplan
    refine ⟨(within_tableWorld t time).answers r s hcalm, ?_⟩
    rintro rfl hst
    exact granted_answer hplan r hst
  keeps r s hplan := plan_answer hplan r

end Service

/-! ## Operations that succeed -/

/-- Every run of an operation succeeds, with the memory as it was, and ends in the condition `Q`. -/
def Operation.Surely {σ : Type} (W : World σ) (m : Memory) (st : σ) (x : Operation α)
    (Q : α → σ → Prop) : Prop :=
  x.Always W m st fun r m' st' => m' = m ∧ ∃ a, r = .ok a ∧ Q a st'

namespace Operation

variable {σ : Type} {W : World σ} {m : Memory} {st : σ}

theorem Surely.bind {x : Operation α} {f : α → Operation β} {P : α → σ → Prop} {Q : β → σ → Prop}
    (hx : x.Surely W m st P) (hf : ∀ a st', P a st' → (f a).Surely W m st' Q) :
    (x >>= f).Surely W m st Q := by
  refine Always.bind hx ?_ ?_
  · rintro a _ st' ⟨rfl, _, ⟨⟩, h⟩
    exact hf a st' h
  · rintro e m' st' ⟨-, a, h, -⟩
    cases h

theorem Surely.imp {x : Operation α} {P Q : α → σ → Prop} (hx : x.Surely W m st P)
    (h : ∀ a st', P a st' → Q a st') : x.Surely W m st Q := by
  refine Always.imp hx ?_
  rintro _ m' st' ⟨hm, a, rfl, hP⟩
  exact ⟨hm, a, rfl, h a st' hP⟩

theorem surely_pure {a : α} {Q : α → σ → Prop} (h : Q a st) :
    (pure a : Operation α).Surely W m st Q :=
  ⟨rfl, a, rfl, h⟩

/-- The clock shows the time. -/
theorem surely_now {f : Int64 → Operation α} {Q : α → σ → Prop}
    (h : ∀ now, W.shows now → (f now).Surely W m st Q) : (perform .now >>= f).Surely W m st Q := by
  unfold Surely
  rw [always_bind, always_perform, Program.always_now]
  exact h

end Operation

namespace Client

variable {σ : Type} {W : World σ} {m : Memory} {st : σ} {c : Client} {operation target : String}
  {attempt : Program (Except ServiceError α)} {Q : α → σ → Prop}

/-- A request that succeeds at once is not tried again. -/
theorem surely_retry {idempotent : Bool}
    (h : attempt.Always W st fun r st' => ∃ a, r = .ok a ∧ Q a st') :
    (c.retry operation target idempotent attempt).Surely W m st Q := by
  unfold Surely retry
  rw [retryFrom, always_bind, always_perform]
  refine h.imp ?_
  rintro _ st' ⟨a, rfl, hQ⟩
  exact ⟨rfl, a, rfl, hQ⟩

theorem surely_once (h : attempt.Always W st fun r st' => ∃ a, r = .ok a ∧ Q a st') :
    (c.once operation target attempt).Surely W m st Q := by
  unfold Surely once
  rw [always_bind, always_perform]
  refine h.imp ?_
  rintro _ st' ⟨a, rfl, hQ⟩
  exact ⟨rfl, a, rfl, hQ⟩

end Client

/-! ## Requests for a table that is there -/

section Requests

variable {items : Items} {m : Memory}

/-- A read is granted. -/
theorem Program.always_ask_fair {r : Request} {f : Items → r.Reply} (hr : r.table = t)
    (hread : ∀ answer st', Served r (some items) answer st' → Reads (some items) f answer st')
    (hgranted : ∀ answer, r.Granted answer → ∃ a, answer = .ok a) :
    (ask r).Always (fairWorld t time) (some items) fun answer st' =>
      ∃ a, answer = .ok a ∧ st' = some items := by
  rw [always_ask]
  rintro answer st' ⟨h, hg⟩
  obtain ⟨a, rfl⟩ := hgranted answer (hg hr (Option.some_ne_none items))
  exact ⟨a, rfl, (hread _ _ (served_of_answers hr h)).1⟩

theorem Entry.always_standInsUntilLive_fair {owner : String} (keys : List (Path × Key)) :
    (standInsUntilLive t owner keys).Always (fairWorld t time) (some items) fun r st =>
      ∃ above, r = .ok above ∧ st = some items := by
  induction keys with
  | nil => exact ⟨[], rfl, rfl⟩
  | cons x keys ih =>
    rw [standInsUntilLive, Program.always_bind]
    refine (Program.always_ask_fair (r := .getItem t x.2) rfl (fun _ _ h => h) fun _ h => h).imp ?_
    rintro _ _ ⟨found, rfl, rfl⟩
    dsimp only
    split
    · exact ⟨[], rfl, rfl⟩
    · rw [Program.always_bind]
      refine ih.imp ?_
      rintro _ _ ⟨above, rfl, rfl⟩
      exact ⟨_, rfl, rfl⟩

namespace Client

variable {c : Client}

/-- A batch of a fit size with different keys is taken whole. -/
theorem surely_writeSlice (hc : c.table = t) {writes : List Write} (hne : writes ≠ [])
    (hlength : writes.length ≤ maxBatch) (hnodup : (writes.map Write.key).Nodup) :
    (c.writeSlice writes).Surely (fairWorld t time) m (some items) fun _ st =>
      ∃ items', st = some items' := by
  unfold writeSlice sendBatch
  refine (surely_retry (Q := fun left st => left = [] ∧ ∃ items', st = some items') ?_).bind ?_
  · rw [Program.always_ask]
    rintro answer st' ⟨h, hg⟩
    obtain rfl := hg hc (Option.some_ne_none items) hne hlength hnodup
    obtain ⟨_, k, -, -, hst⟩ := served_of_answers (r := .batchWrite c.table writes) hc h
    exact ⟨[], rfl, rfl, _, hst⟩
  · rintro _ st ⟨rfl, hst⟩
    rw [resend, if_pos rfl]
    exact surely_pure hst

/-- Writing with different keys succeeds. -/
theorem surely_writeAll (hc : c.table = t) {limit : Nat} (hlimit : limit ≤ maxBatch)
    (deletes : List Key) (puts : List Item)
    (hnodup : ((deletes.map Write.delete ++ puts.map Write.put).map Write.key).Nodup) :
    (c.writeAll limit deletes puts).Surely (fairWorld t time) m (some items) fun _ st =>
      ∃ items', st = some items' := by
  unfold writeAll
  generalize deletes.map Write.delete ++ puts.map Write.put = writes at hnodup
  have hslices : ∀ slice ∈ slices limit writes, slice ≠ [] ∧ slice.length ≤ maxBatch ∧
      (slice.map Write.key).Nodup := by
    intro slice hslice
    obtain ⟨hpos, hlength⟩ := length_of_mem_slices hslice
    have hsub := (sublist_of_mem_slices hslice).map Write.key
    refine ⟨List.length_pos_iff.1 hpos, ?_, hnodup.sublist hsub⟩
    have : 1 ≤ maxBatch := by decide
    omega
  refine Surely.bind (P := fun _ st => ∃ items', st = some items') ?_ fun _ _ h => surely_pure h
  generalize slices limit writes = parts at hslices
  induction parts generalizing items with
  | nil => exact surely_pure ⟨items, rfl⟩
  | cons slice parts ih =>
    obtain ⟨hne, hlength, hnodup⟩ := hslices slice List.mem_cons_self
    rw [List.forM_eq_forM, List.forM_cons]
    refine (surely_writeSlice hc hne hlength hnodup).bind ?_
    rintro _ _ ⟨items', rfl⟩
    exact ih fun part hpart => hslices part (List.mem_cons_of_mem slice hpart)

end Client

end Requests

/-! ## A store that is bound -/

/-- What is known of an operation that only fails on a table where something goes wrong. -/
theorem Operation.Surely.and_always {m : Memory} {st : Option Items} {x : Operation α}
    {P Q : α → Option Items → Prop} {I : Option Items → Prop}
    (hx : x.Surely (fairWorld t time) m st P)
    (h : x.Always (tableWorld t time) m st fun r _ st' => EndsIn Q I r st') :
    x.Surely (fairWorld t time) m st fun a st' => P a st' ∧ Q a st' := by
  have hfair : x.Always (fairWorld t time) m st fun r _ st' => EndsIn Q I r st' :=
    Program.Always.mono h (fun _ _ _ _ ha => ha.1) fun _ => id
  refine (Program.Always.and hx hfair).imp ?_
  rintro ⟨_, m'⟩ st' ⟨⟨rfl, a, rfl, hP⟩, hQ⟩
  exact ⟨rfl, a, rfl, hP, hQ⟩

namespace Store

variable {s : Store} {m : Memory} {items : Items}

/-- A store that is bound need not bind again. -/
theorem surely_bound_bind (hm : isBound m = true) {f : Binding → Operation α}
    {Q : α → Option Items → Prop} {st : Option Items}
    (hf : ∀ binding, (f binding).Surely (fairWorld t time) m st Q) :
    (s.bound >>= f).Surely (fairWorld t time) m st Q :=
  always_bound_bind_of_isBound hm hf

theorem surely_get (hm : isBound m = true) (path : Path) :
    (s.get path false).Surely (fairWorld s.table time) m (some items) fun _ st =>
      st = some items := by
  unfold get
  refine surely_bound_bind hm ?_
  intro _
  cases hr : path.isRoot with
  | true => exact surely_pure rfl
  | false =>
    obtain ⟨key, hkey⟩ := Path.exists_key?_of_isRoot hr
    simp only [Bool.false_eq_true, if_false]
    unfold Surely
    rw [Path.key_of_key? hkey, always_ofPath_ok]
    refine Client.surely_once ?_
    unfold readEntry
    rw [Program.always_bind]
    refine (Program.always_ask_fair (r := .getItem s.table key) rfl (fun _ _ h => h)
      fun _ h => h).imp ?_
    rintro _ _ ⟨found, rfl, rfl⟩
    dsimp only
    split
    · exact ⟨_, rfl, rfl⟩
    · exact ⟨_, rfl, rfl⟩

theorem surely_listChildren (hm : isBound m = true) (path : Path) :
    (s.listChildren path).Surely (fairWorld s.table time) m (some items) fun _ st =>
      st = some items := by
  unfold listChildren
  refine surely_bound_bind hm ?_
  intro _
  refine (Client.surely_once (Program.always_ask_fair (r := .query s.table path.partition none)
    rfl (fun _ _ h => h) fun _ h => h)).bind ?_
  rintro found _ rfl
  dsimp only
  split
  · refine (surely_get hm path).bind ?_
    rintro e _ rfl
    exact surely_pure rfl
  · exact surely_pure rfl

theorem surely_collect? (hm : isBound m = true) (visits : Nat) (queue : List Entry) :
    (Walk.collect? s visits ⟨queue⟩).Surely (fairWorld s.table time) m (some items) fun _ st =>
      st = some items := by
  induction visits generalizing queue with
  | zero => exact surely_pure rfl
  | succ visits ih =>
    cases queue with
    | nil =>
      rw [Walk.collect?_nil]
      exact surely_pure rfl
    | cons e queue =>
      rw [Walk.collect?_cons]
      refine Surely.bind (P := fun _ st => st = some items) ?_ ?_
      · split
        · exact surely_listChildren hm e.path
        · exact surely_pure rfl
      · rintro listing _ rfl
        refine (ih _).bind ?_
        rintro rest _ rfl
        exact surely_pure rfl

/-- What a store finds when it looks for missing ancestors. -/
theorem surely_withMissingAncestors (e : Entry) :
    (s.withMissingAncestors e).Surely (fairWorld s.table time) m (some items) fun es st =>
      st = some items ∧ es = items.withMissing s.owner e := by
  have hsure : (s.withMissingAncestors e).Surely (fairWorld s.table time) m (some items)
      fun _ st => st = some items := by
    unfold withMissingAncestors
    obtain ⟨keys, hok, -, -⟩ := e.path.ancestorKeys_eq
    unfold Surely
    rw [hok, always_ofPath_ok]
    refine Client.surely_retry ?_
    unfold Entry.missingAncestors
    rw [Program.always_bind]
    refine (Entry.always_standInsUntilLive_fair keys).imp ?_
    rintro _ _ ⟨above, rfl, rfl⟩
    exact ⟨_, rfl, rfl⟩
  exact (hsure.and_always (always_withMissingAncestors items e)).imp fun _ _ h => h.2

/-- Entries of different paths, none of them a root, are written. -/
theorem surely_storeEntries (hlimit : s.settings.batchWriteLimit ≤ maxBatch) {es : List Entry}
    (hroot : ∀ e ∈ es, e.path.isRoot = false) (hes : es.Pairwise fun d e => d.path ≠ e.path) :
    (s.writeEntries [] es).Surely (fairWorld s.table time) m (some items) fun _ st =>
      ∃ items', st = some items' := by
  unfold Surely writeEntries
  rw [Entry.items_eq_ok hroot, always_ofPath_ok]
  exact Client.surely_writeAll (c := s.client) rfl hlimit [] _ (Entry.nodup_writes hes)

end Store

/-! ## Calls -/

namespace Call

variable {s : Store} {m : Memory} {items : Items}

/-- The entries of a call are written. -/
theorem surely_storeEntries (hlimit : s.settings.batchWriteLimit ≤ maxBatch) (c : Call)
    (now : Int64) :
    (s.writeEntries [] (c.entries s.owner items now) >>= fun _ => pure ()).Surely
      (fairWorld s.table time) m (some items) fun _ _ => True :=
  (Store.surely_storeEntries hlimit (fun _ => isRoot_of_mem_entries) c.pairwise_entries).bind
    fun _ _ _ => surely_pure trivial

theorem surely_move (hm : Store.isBound m = true)
    (hlimit : s.settings.batchWriteLimit ≤ maxBatch) (deletes : Option (List Path))
    (creates : Option (List Entry)) :
    (s.move deletes creates).Surely (fairWorld s.table time) m (some items) fun _ _ => True := by
  unfold Store.move
  split
  · exact surely_pure trivial
  · rw [Entry.elim_withAncestors]
    refine Store.surely_bound_bind hm fun _ => ?_
    cases deletes with
    | none => exact surely_storeEntries hlimit (.move none creates) time
    | some paths =>
      exact surely_now fun now _ => surely_storeEntries hlimit (.move (some paths) creates) now

theorem surely_deleteSubtree? (hm : Store.isBound m = true)
    (hlimit : s.settings.batchWriteLimit ≤ maxBatch) {visits : Nat} (hvisits : items.size < visits)
    (path : Path) :
    (s.deleteSubtree? visits path).Surely (fairWorld s.table time) m (some items)
      fun _ _ => True := by
  obtain ⟨es, hes⟩ := Items.exists_snapshot?_eq s.owner path hvisits
  unfold Store.deleteSubtree?
  refine Store.surely_bound_bind hm fun _ => ?_
  refine ((Store.surely_get hm path).and_always (Store.always_get path)).bind ?_
  rintro e _ ⟨rfl, -, rfl⟩
  have hsnapshot := hes
  unfold Items.snapshot? at hsnapshot
  split
  · exact surely_pure trivial
  · rename_i root hroot
    rw [hroot] at hsnapshot
    refine ((Store.surely_collect? hm visits [root]).and_always
      (Walk.always_collect? visits ⟨[root]⟩ m)).bind ?_
    rintro found _ ⟨rfl, -, hfound⟩
    cases hfound.trans hsnapshot
    refine surely_now fun now _ => ?_
    have hbelow : ∀ t ∈ Entry.tombstones es now, t.path.isRoot = false :=
      fun _ ht => (Entry.of_mem_tombstones ht).2
    refine Surely.bind (Store.surely_storeEntries hlimit hbelow
      (Entry.pairwise_path_tombstones (Items.pairwise_path_snapshot hes))) ?_
    rintro _ _ -
    exact surely_pure trivial

/-- The calls that store entries in batches. -/
def Stores : Call → Prop
  | .put _ | .putAll _ | .putListing _ | .move .. | .deleteSubtree _ => True
  | .delete _ | .forget _ | .prune _ => False

/-- A store that is bound carries such a call through. -/
theorem surely_perform (hm : Store.isBound m = true)
    (hlimit : s.settings.batchWriteLimit ≤ maxBatch) {visits : Nat} (hvisits : items.size < visits)
    {c : Call} (hc : c.Stores) :
    (c.perform s visits).Surely (fairWorld s.table time) m (some items) fun _ _ => True := by
  cases c with
  | put e =>
    refine Store.surely_bound_bind hm fun _ => ?_
    refine (Store.surely_withMissingAncestors e).bind ?_
    rintro es _ ⟨rfl, rfl⟩
    exact surely_storeEntries hlimit (.put e) time
  | putAll es =>
    refine Store.surely_bound_bind hm fun _ => ?_
    exact surely_storeEntries hlimit (.putAll es) time
  | putListing l =>
    refine Store.surely_bound_bind hm fun _ => ?_
    refine (Store.surely_withMissingAncestors (l.directory s.owner)).bind ?_
    rintro above _ ⟨rfl, rfl⟩
    exact surely_storeEntries hlimit (.putListing l) time
  | move deletes creates => exact surely_move hm hlimit deletes creates
  | deleteSubtree path =>
    exact (surely_deleteSubtree? hm hlimit hvisits path).bind fun _ _ _ => surely_pure trivial
  | delete path => exact hc.elim
  | forget path => exact hc.elim
  | prune before => exact hc.elim

end Call

/-! ## A store that can bind -/

namespace Store

variable {s : Store} {m : Memory} {h : Host Service}

theorem run_bound_of_binding {binding : Binding} (hbinding : m.binding = some binding)
    (hdestroyed : m.destroyed = false) :
    s.bound.run Service.backend m h = ⟨.ok binding, m, h⟩ := by
  unfold bound
  rw [run_bind, show (getThe Memory : Operation Memory).run Service.backend m h = ⟨.ok m, m, h⟩
    from rfl]
  dsimp only [Run.andThen]
  rw [hdestroyed, hbinding]
  rfl

/-- A store that is destroyed does not bind. -/
theorem endsAtOnce_bound (hdestroyed : m.destroyed = true) :
    s.bound.EndsAtOnce m (.error s.destroyedError) := by
  show (if m.destroyed then throw s.destroyedError else _ : Operation Binding).start m = _
  rw [hdestroyed]
  rfl

/-- A store that is bound goes on with what follows. -/
theorem run_bound_bind_of_isBound {α : Type} {x : Operation α} (hm : isBound m = true) :
    (s.bound >>= fun _ => x).run Service.backend m h = x.run Service.backend m h := by
  obtain ⟨hbinding, hdestroyed⟩ := Bool.and_eq_true_iff.1 hm
  obtain ⟨binding, hbinding⟩ := Option.isSome_iff_exists.1 hbinding
  exact run_bind_of_ok (run_bound_of_binding hbinding (by simpa using hdestroyed))

/-- A store that could be prepared is bound then. -/
theorem isBound_of_prepare (hok : (s.prepare.run Service.backend m h).outcome = .ok ()) :
    isBound (s.prepare.run Service.backend m h).memory = true := by
  cases hdestroyed : m.destroyed with
  | true =>
    unfold prepare at hok
    rw [((endsAtOnce_bound hdestroyed).bind _).run] at hok
    cases hok
  | false =>
    cases hbinding : m.binding with
    | some binding =>
      unfold prepare
      rw [run_bind, run_bound_of_binding hbinding hdestroyed]
      simp [isBound, Run.andThen, hbinding, hdestroyed]
    | none =>
      rw [run_prepare ⟨hbinding, hdestroyed⟩] at hok ⊢
      rcases hrun : s.settings.bind.run Service.backend m h with ⟨_ | binding, m₁, h₁⟩
      · rw [hrun] at hok
        cases hok
      · have halike := Settings.remembers_bind.alike hrun
        simp [isBound, halike.destroyed_eq, hdestroyed]

/-- What a store does on its table, done from the moment at which the store is bound. -/
theorem run_bound_bind {x : Operation α}
    (hok : (s.prepare.run Service.backend m h).outcome = .ok ()) :
    (s.bound >>= fun _ => x).run Service.backend m h =
      (s.bound >>= fun _ => x).run Service.backend (s.prepare.run Service.backend m h).memory
        (s.prepare.run Service.backend m h).host := by
  have hbound := isBound_of_prepare hok
  obtain ⟨binding, m₁, h₁, hfirst, hprepare⟩ := exists_run_of_run_bind hok
  have hrun : s.prepare.run Service.backend m h = ⟨.ok (), m₁, h₁⟩ := hprepare
  rw [hrun] at hbound ⊢
  rw [run_bind_of_ok hfirst, run_bound_bind_of_isBound hbound]

end Store

namespace Call

variable {s : Store} {m : Memory} {h : Host Service} {items : Items} {c : Call}

/-- A call that stores entries starts by binding, unless it is a move of nothing. -/
theorem perform_eq_bound_bind (hc : c.Stores) (visits : Nat) :
    c.perform s visits = pure () ∨ ∃ x, c.perform s visits = s.bound >>= fun _ => x := by
  cases c with
  | put e => exact .inr ⟨_, rfl⟩
  | putAll es => exact .inr ⟨_, rfl⟩
  | putListing l => exact .inr ⟨_, rfl⟩
  | move deletes creates =>
    show s.move deletes creates = pure () ∨ ∃ x, s.move deletes creates = _
    unfold Store.move
    split
    · exact .inl rfl
    · exact .inr ⟨_, rfl⟩
  | deleteSubtree path =>
    unfold perform Store.deleteSubtree?
    exact .inr ⟨_, bind_assoc ..⟩
  | delete path => exact hc.elim
  | forget path => exact hc.elim
  | prune before => exact hc.elim

/-- **Success when nothing goes wrong.** A call that stores entries succeeds on a service for which
nothing is planned, if the table is there and the store can bind to it. -/
theorem outcome_perform_of_prepared (hcheck : s.settings.check = .ok ())
    (hplan : h.state.plan = {}) (hitems : h.state.items? s.table = some items)
    (hprepare : (s.prepare.run Service.backend m h).outcome = .ok ()) {visits : Nat}
    (hvisits : items.size < visits) (hc : c.Stores) :
    ((c.perform s visits).run Service.backend m h).outcome = .ok () := by
  have hlimit := (Settings.check_eq_ok_iff.1 hcheck).2.2.2.1
  rcases perform_eq_bound_bind hc visits (s := s) with hpure | ⟨x, hx⟩
  · rw [hpure]
    rfl
  have hwithin := Service.within_fairWorld s.table h.now
  have hbound : s.prepare.Always (fairWorld s.table h.now) m (h.state.items? s.table)
      fun _ _ st => st = some items := by
    rw [hitems]
    refine Program.Always.mono (W := tableWorld s.table h.now) ?_ (fun _ _ _ _ ha => ha.1)
      fun _ => id
    have hprepared : s.prepare.Always (tableWorld s.table h.now) m (some items)
        fun _ _ st => st = some items :=
      (Store.always_bound items).bind (fun _ _ _ h => h) fun _ _ _ h => h
    exact hprepared
  obtain ⟨hitems', hplan'⟩ := hbound.run hwithin hplan rfl
  have hcall : (c.perform s visits).Always
      (fairWorld s.table (s.prepare.run Service.backend m h).host.now)
      (s.prepare.run Service.backend m h).memory
      ((s.prepare.run Service.backend m h).host.state.items? s.table) _ :=
    hitems' ▸ surely_perform (Store.isBound_of_prepare hprepare) hlimit hvisits hc
  obtain ⟨⟨-, _, hok, -⟩, -⟩ := hcall.run (Service.within_fairWorld s.table _) hplan' rfl
  rw [hx, Store.run_bound_bind hprepare, ← hx]
  exact hok

end Call

end TableTree
