import TableTree.Proofs.Composed
import TableTree.Proofs.DistinctWrites
import TableTree.Proofs.Readings

/-!
# No batch is refused for what it holds

The service refuses a batch that is empty or too long, or that has two writes for one key. No store
with settings that are fit for use sends one, whatever it is asked for and whatever the service holds
and answers: what is read for a batch gives different paths, and different paths have different keys.

Results:

* `Service.anyWorld`: the service, whatever is planned, with writes by others.
* `Request.IsAcceptable`, `Service.answer_ne_validation`: batches that are not refused for what they
  hold.
* `Operation.Gives`: what is known of the results of an operation.
* `Operation.SendsAcceptable`: operations that send no other batches.
* `Outbox.Sends.of_mem_deliveries`: batches are slices of the writes, or rests of slices.
* `Action.isAcceptable_exchanges`: all that a store is asked for.
-/

namespace TableTree

open Operation

variable {α β : Type} {t : String}

/-! ## Batches that are not refused -/

/-- What the service asks of a batch: that it holds some writes and not too many, with one for each
key. -/
def Request.IsAcceptable : Request → Prop
  | .batchWrite _ writes =>
    1 ≤ writes.length ∧ writes.length ≤ maxBatch ∧ (writes.map Write.key).Nodup
  | _ => True

theorem Request.IsSingle.isAcceptable {r : Request} (h : r.IsSingle) : r.IsAcceptable := by
  cases r with
  | batchWrite name writes => cases h
  | _ => trivial

namespace Service

/-- A batch is not refused for what it holds if there is nothing wrong with that. -/
theorem answer_ne_validation (s : Service) {name : String} {writes : List Write}
    (h : (Request.batchWrite name writes).IsAcceptable) (message : String) :
    (s.answer (.batchWrite name writes)).1 ≠ .error (.validation message) := by
  obtain ⟨hpos, hlength, hnodup⟩ := h
  have hserved (s : Service) (call : Nat) :
      (s.batchWrite call name writes).1 ≠ .error (.validation message) := by
    have hsize : ¬ (writes.length = 0 ∨ maxBatch < writes.length) := by omega
    unfold batchWrite
    rw [if_neg hsize, if_neg (Decidable.not_not.2 hnodup)]
    dsimp only
    unfold writeItems
    split
    · rename_i e s' heq
      split at heq <;> cases heq
      nofun
    · nofun
  show (unlessFault (s.count (.batchWrite name writes)) _).1 ≠ _
  rcases unlessFault_cases (s.count (.batchWrite name writes))
    fun s => s.batchWrite (s.counts.batchWrite - 1) name writes with heq | ⟨e, heq, he⟩
  · rw [heq]
    exact hserved _ _
  · rw [heq]
    rintro ⟨⟩
    cases he

/-! ## Any service -/

/-- What is read of the items is read of some items. -/
theorem exists_readItems_eq {s : Service} {name : String} {f : Items → α} {a : α}
    (h : (s.unlessFault fun s => (s.readItems name f, s)).1 = .ok a) : ∃ items, a = f items := by
  rcases unlessFault_cases s fun s => (s.readItems name f, s) with heq | ⟨e, heq, -⟩
  · rw [heq] at h
    dsimp only at h
    unfold readItems at h
    split at h
    · cases h
    · rename_i items _
      exact ⟨items, (Except.ok.inj h).symm⟩
  · rw [heq] at h
    cases h

/-- The service seen from the items of the table `t`, whatever else it holds, whatever is planned for
it, and whatever others are going to write. -/
def anyWorld (t : String) : World (Option Items) where
  answers r st answer st' :=
    ∃ s : Service, s.items? t = st ∧ (s.answer r).1 = answer ∧ (s.answer r).2.items? t = st'

theorem within_anyWorld (t : String) :
    Service.backend.Within (anyWorld t) (·.items? t) fun _ => True where
  answers _ s _ := ⟨s, rfl, rfl, rfl⟩
  keeps _ _ _ := trivial

theorem takesFromFront_anyWorld (t : String) : (anyWorld t).TakesFromFront t := by
  rintro writes _ _ _ ⟨s, rfl, rfl, rfl⟩
  exact s.served_answer_batchWrite t writes

end Service

/-! ## What operations give -/

/-- Whatever the service does, the condition `P` holds of what the operation gives. -/
def Operation.Gives (t : String) (x : Operation α) (P : α → Prop) : Prop :=
  ∀ m st, x.Always (Service.anyWorld t) m st fun r _ _ => ∀ a, r = .ok a → P a

/-- Whatever the service does, the condition `P` holds of what the program gives. -/
def Program.Gives (t : String) (p : Program (Except ServiceError α)) (P : α → Prop) : Prop :=
  ∀ st, p.Always (Service.anyWorld t) st fun r _ => ∀ a, r = .ok a → P a

namespace Operation

variable {x : Operation α} {P : α → Prop} {Q : β → Prop}

theorem gives_pure {a : α} (h : P a) : (pure a : Operation α).Gives t P := by
  rintro m st _ ⟨⟩
  exact h

/-- Nothing need be known of what an operation gives. -/
theorem gives_any (x : Operation α) : x.Gives t fun _ => True :=
  fun _ _ => Program.always_of_forall fun _ _ _ _ => trivial

theorem Gives.bind {f : α → Operation β} (hx : x.Gives t P) (hf : ∀ a, P a → (f a).Gives t Q) :
    (x >>= f).Gives t Q := by
  intro m st
  refine (hx m st).bind ?_ ?_
  · intro a m' st' ha
    exact hf a (ha a rfl) m' st'
  · intro e m' st' _
    nofun

end Operation

namespace Client

variable {c : Client} {operation target : String} {idempotent : Bool}
  {attempt : Program (Except ServiceError α)} {P : α → Prop}

theorem gives_once (h : attempt.Gives t P) : (c.once operation target attempt).Gives t P := by
  intro m st
  refine (always_once (Q := fun a _ => P a) (I := fun _ => True) ?_).imp ?_
  · refine (h st).imp ?_
    rintro (e | a) _ ha
    · trivial
    · exact ha a rfl
  · rintro _ _ _ hr a rfl
    exact hr

theorem gives_retry (h : attempt.Gives t P) :
    (c.retry operation target idempotent attempt).Gives t P := by
  intro m st
  refine (always_retry (Q := fun a _ => P a) (I := fun _ => True) ?_ m trivial).imp ?_
  · intro st _
    refine (h st).imp ?_
    rintro (e | a) _ ha
    · trivial
    · exact ha a rfl
  · rintro _ _ _ hr a rfl
    exact hr

end Client

/-! ### Ancestors -/

/-- The stand-ins are for the first ancestors of a list. -/
theorem Entry.gives_standInsUntilLive (owner : String) (ancestors : List (Path × Key)) :
    (standInsUntilLive t owner ancestors).Gives t fun above =>
      above.map Entry.path <+: ancestors.map Prod.fst := by
  induction ancestors with
  | nil =>
    rintro st _ ⟨⟩
    exact List.prefix_rfl
  | cons ancestor further ih =>
    obtain ⟨path, key⟩ := ancestor
    intro st
    rw [standInsUntilLive, Program.always_bind, Program.always_ask]
    intro answer st' _
    cases answer with
    | error e => rintro _ ⟨⟩
    | ok found =>
      dsimp only
      split
      · rintro _ ⟨⟩
        exact List.nil_prefix
      · rw [Program.always_bind]
        refine (ih st').imp ?_
        rintro (e | above) _ habove
        · rintro _ ⟨⟩
        · rintro _ ⟨⟩
          exact List.cons_prefix_cons.2 ⟨rfl, habove above rfl⟩

/-- An entry comes with one entry for each of some ancestors. -/
theorem Store.gives_withMissingAncestors (s : Store) (e : Entry) :
    (s.withMissingAncestors e).Gives s.table fun es => es.Pairwise fun d e => d.path ≠ e.path := by
  obtain ⟨keys, hok, hfst, -⟩ := e.path.ancestorKeys_eq
  unfold withMissingAncestors
  rw [hok]
  refine Gives.bind (P := fun ancestors => ancestors = keys) ?_ ?_
  · rintro m st _ ⟨⟩
    rfl
  rintro ancestors rfl
  refine Client.gives_retry fun st => ?_
  rw [Entry.missingAncestors, Program.always_bind]
  refine (Entry.gives_standInsUntilLive s.owner ancestors st).imp ?_
  rintro (fault | above) _ habove
  · exact nofun
  rintro _ ⟨⟩
  have hprefix : above.map Entry.path <+: e.path.ancestors := hfst ▸ habove above rfl
  have hmem : ∀ d ∈ above, d.path ∈ e.path.ancestors := fun d hd =>
    hprefix.subset (List.mem_map.2 ⟨d, hd, rfl⟩)
  have hpaths : above.Pairwise fun d e => d.path ≠ e.path := by
    have hpair := List.pairwise_map.1 (e.path.pairwise_ancestors.sublist hprefix.sublist)
    exact hpair.imp fun h => (Path.ne_of_mem_ancestors h).symm
  refine List.pairwise_append.2 ⟨List.pairwise_reverse.2 (hpaths.imp Ne.symm), ?_, ?_⟩
  · split
    · exact .nil
    · exact List.pairwise_singleton ..
  · intro d hd x hx
    split at hx
    · cases hx
    · rw [List.mem_singleton.1 hx]
      exact Path.ne_of_mem_ancestors (hmem d (List.mem_reverse.1 hd))

/-! ### Walks -/

/-- What is listed of a path lies directly below it, one entry for each path. -/
theorem Items.childrenOf_listed (items : Items) (owner : String) (p : Path) :
    Entry.ChildrenOf p (items.listed owner p) where
  below c hc := Path.parent?_eq_some_iff.1 (mem_listed_iff.1 hc).1
  distinct := by
    refine (pairwise_listed p).imp ?_
    rintro c d hlt heq
    rw [heq] at hlt
    exact String.lt_irrefl _ hlt

/-- The entries of a listing lie directly below its path, one for each path. -/
theorem Store.gives_listChildren (s : Store) (path : Path) :
    (s.listChildren path).Gives s.table fun l => ∀ listing ∈ l,
      Entry.ChildrenOf path listing.entries := by
  unfold listChildren
  refine (gives_any _).bind fun _ _ => ?_
  refine (Client.gives_once (P := fun found => ∃ items : Items,
    found = items.all.filter fun item => item.key.parent = path.partition) ?_).bind ?_
  · intro st
    rw [Program.always_ask]
    rintro answer st' ⟨service, -, hanswer, -⟩ found rfl
    obtain ⟨items, rfl⟩ := Service.exists_readItems_eq hanswer
    exact ⟨items, Items.select_none _⟩
  · rintro _ ⟨items, rfl⟩
    have hchildren := items.childrenOf_listed s.owner path
    dsimp only
    split
    · refine (gives_any _).bind fun found _ => gives_pure fun listing hlisting => ?_
      obtain ⟨-, -, rfl⟩ := Option.map_eq_some_iff.1 hlisting
      exact hchildren
    · refine gives_pure ?_
      rintro _ ⟨⟩
      exact hchildren

/-- Some of the entries directly below a path. -/
theorem Entry.ChildrenOf.filter {p : Path} {cs : List Entry} (h : Entry.ChildrenOf p cs)
    (f : Entry → Bool) : Entry.ChildrenOf p (cs.filter f) where
  below c hc := h.below c (List.mem_filter.1 hc).1
  distinct := h.distinct.filter f

/-- A walk gives one entry for each path, under the paths that it starts from. -/
theorem Walk.gives_collect? (s : Store) (visits : Nat) {queue : List Entry}
    (hqueue : Entry.IsQueue queue) :
    (Walk.collect? s visits ⟨queue⟩).Gives s.table fun found => ∀ es ∈ found,
      (es.Pairwise fun d e => d.path ≠ e.path) ∧
        ∀ x ∈ es, ∃ e ∈ queue, x.path.isUnder e.path = true := by
  have hnil : ∀ es ∈ some ([] : List Entry), (es.Pairwise fun d e => d.path ≠ e.path) ∧
      ∀ x ∈ es, ∃ e ∈ queue, x.path.isUnder e.path = true := by
    rintro _ ⟨⟩
    exact ⟨.nil, nofun⟩
  induction visits generalizing queue with
  | zero =>
    refine gives_pure ?_
    split
    · exact hnil
    · exact nofun
  | succ visits ih =>
    cases queue with
    | nil =>
      rw [collect?_nil]
      exact gives_pure hnil
    | cons e queue =>
      rw [collect?_cons]
      refine Gives.bind (P := fun listing => ∀ l ∈ listing, Entry.ChildrenOf e.path l.entries)
        ?_ fun listing hlisting => ?_
      · split
        · exact s.gives_listChildren e.path
        · exact gives_pure nofun
      have hchildren : Entry.ChildrenOf e.path
          (listing.elim [] fun l => l.entries.filter Entry.isLive) := by
        cases listing with
        | none => exact Entry.childrenOf_nil e.path
        | some l => exact (hlisting l rfl).filter _
      refine (ih (hqueue.visit hchildren) ?_).bind fun rest hrest => gives_pure fun es hes => ?_
      · rintro _ ⟨⟩
        exact ⟨.nil, nofun⟩
      obtain ⟨later, hlater, rfl⟩ := Option.map_eq_some_iff.1 hes
      obtain ⟨hpaths, hunder⟩ := hrest later hlater
      refine ⟨List.pairwise_cons.2 ⟨fun x hx hp => ?_, hpaths⟩, fun x hx => ?_⟩
      · -- no later visit is to the path, which is under nothing in the queue
        obtain ⟨c, hc, hu⟩ := hunder x hx
        rw [← hp, hqueue.not_isUnder_of_mem hchildren hc] at hu
        cases hu
      · rcases List.mem_cons.1 hx with rfl | hx
        · exact ⟨x, List.mem_cons_self, x.path.isUnder_refl⟩
        · obtain ⟨c, hc, hu⟩ := hunder x hx
          rcases List.mem_append.1 hc with hc | hc
          · exact ⟨c, List.mem_cons_of_mem e hc, hu⟩
          · exact ⟨e, List.mem_cons_self, Path.isUnder_trans hu (hchildren.isUnder hc)⟩

/-! ### Scans -/

/-- A scan gives items with different keys. -/
theorem Client.gives_scan (c : Client) (operation target : String) (filter : Option Filter) :
    (c.retry operation target true (.ask (.scan t filter))).Gives t fun found =>
      (found.map Item.key).Nodup := by
  refine gives_retry fun st => ?_
  rw [Program.always_ask]
  rintro answer st' ⟨service, -, hanswer, -⟩ found rfl
  obtain ⟨items, rfl⟩ := Service.exists_readItems_eq hanswer
  refine List.pairwise_map.2 ((items.pairwise_all.filter _).imp ?_)
  intro x y hlt heq
  have hself : compare y.key y.key = .eq := Std.ReflCmp.compare_self
  rw [heq, hself] at hlt
  cases hlt

/-! ## What operations send -/

/-- All requests that were exchanged are acceptable. -/
def AllAcceptable (log : List Exchange) : Prop := ∀ y ∈ log, y.1.IsAcceptable

/-- Whatever the service does, the operation sends only batches that are acceptable, and the condition
`P` holds of what it gives. -/
def Operation.SendsAcceptable (t : String) (x : Operation α) (P : α → Prop) : Prop :=
  ∀ m st, AllAcceptable st.2 → x.Always (Service.anyWorld t).logged m st fun r _ st' =>
    AllAcceptable st'.2 ∧ ∀ a, r = .ok a → P a

namespace Operation

variable {x : Operation α} {P : α → Prop} {Q : β → Prop}

theorem sendsAcceptable_pure {a : α} (h : P a) : (pure a : Operation α).SendsAcceptable t P := by
  intro m st hst
  refine ⟨hst, ?_⟩
  rintro _ ⟨⟩
  exact h

/-- Nothing is wrong with what sends no batch. -/
theorem Composed.sendsAcceptable (hx : x.Composed Request.IsSingle) (hgives : x.Gives t P) :
    x.SendsAcceptable t P := by
  intro m st hst
  have hgives' : x.Always (Service.anyWorld t).logged m st fun r _ _ => ∀ a, r = .ok a → P a :=
    Program.Always.logged (hgives m st.1)
  refine (Program.Always.and (hx.always_logged m st) hgives').imp ?_
  rintro r st' ⟨hlog, hr⟩
  refine ⟨fun y hy => ?_, hr⟩
  rcases hlog y hy with hy | hy
  · exact hst y hy
  · exact hy.isAcceptable

theorem SendsAcceptable.bind {f : α → Operation β} (hx : x.SendsAcceptable t P)
    (hf : ∀ a, P a → (f a).SendsAcceptable t Q) : (x >>= f).SendsAcceptable t Q := by
  intro m st hst
  refine (hx m st hst).bind ?_ ?_
  · rintro a m' st' ⟨hst', ha⟩
    exact hf a (ha a rfl) m' st' hst'
  · rintro e m' st' ⟨hst', -⟩
    exact ⟨hst', nofun⟩

/-- What sends no batch, followed by something else. -/
theorem Composed.bindAcceptable {f : α → Operation β} (hx : x.Composed Request.IsSingle)
    (hf : ∀ a, (f a).SendsAcceptable t Q) : (x >>= f).SendsAcceptable t Q :=
  (hx.sendsAcceptable (gives_any x)).bind fun a _ => hf a

/-- An operation of which only the effect is wanted. -/
theorem SendsAcceptable.discard {b : β} (hx : x.SendsAcceptable t P) :
    (x >>= fun _ => pure b).SendsAcceptable t fun _ => True :=
  hx.bind fun _ _ => sendsAcceptable_pure trivial

end Operation

/-! ### Writing in batches -/

/-- The batches that empty an outbox are slices of what is in it, or rests of slices. -/
theorem Outbox.Sends.of_mem_deliveries {limit : Nat} {o o' : Outbox} {ds : List Delivery}
    (h : o.Sends limit ds o') (howed : o.owed.length ≤ limit) {d : Delivery} (hd : d ∈ ds) :
    d.batch ≠ [] ∧ d.batch.length ≤ limit ∧ d.batch.Sublist o.unsent := by
  induction ds generalizing o with
  | nil => cases hd
  | cons d' ds ih =>
    obtain ⟨hne, hbatch, hsuffix, hsends⟩ := h
    have hlength : d'.batch.length ≤ limit := by
      rw [hbatch, next]
      split
      · exact List.length_take_le ..
      · exact howed
    rcases List.mem_cons.1 hd with rfl | hd
    · refine ⟨hne, hlength, ?_⟩
      rw [← next_append_later limit o, ← hbatch]
      exact List.sublist_append_left ..
    · obtain ⟨hne', hlength', hsub⟩ := ih hsends (Nat.le_trans hsuffix.length_le hlength) hd
      refine ⟨hne', hlength', hsub.trans ?_⟩
      rw [← next_append_later limit o, ← hbatch]
      exact hsuffix.sublist.append_right _

/-- Writes with different keys go out in acceptable batches. -/
theorem Client.sendsAcceptable_writeAll {c : Client} {limit : Nat} (hlimit : limit ≤ maxBatch)
    (deletes : List Key) (puts : List Item)
    (hkeys : ((deletes.map Write.delete ++ puts.map Write.put).map Write.key).Nodup) :
    (c.writeAll limit deletes puts).SendsAcceptable c.table fun _ => True := by
  intro m st hst
  have hmax : max limit 1 ≤ maxBatch := Nat.max_le.2 ⟨hlimit, by decide⟩
  have hdelivered {o : Outbox} {st' : Option Items × List Exchange}
      (h : Delivered c.table (max limit 1) ⟨[], deletes.map .delete ++ puts.map .put⟩ st o st') :
      AllAcceptable st'.2 := by
    obtain ⟨ds, hsends, -, hlog⟩ := h
    rw [hlog]
    intro y hy
    rcases List.mem_append.1 hy with hy | hy
    · exact hst y hy
    · obtain ⟨d, hd, rfl⟩ := List.mem_map.1 hy
      obtain ⟨hne, hlength, hsub⟩ := hsends.of_mem_deliveries (Nat.zero_le _) hd
      exact ⟨List.length_pos_iff.2 hne, Nat.le_trans hlength hmax,
        hkeys.sublist (hsub.map Write.key)⟩
  refine (always_writeAll_logged (Service.takesFromFront_anyWorld c.table) limit deletes puts m
    st).imp ?_
  rintro (e | n) m' st' h
  · obtain ⟨o, hd, -⟩ := h
    exact ⟨hdelivered hd, nofun⟩
  · exact ⟨hdelivered h.2, fun _ _ => trivial⟩

namespace Store

variable {s : Store}

theorem sendsAcceptable_writeEntries (hlimit : s.settings.batchWriteLimit ≤ maxBatch)
    (deletes : List Key) (es : List Entry)
    (hkeys : ((deletes.map Write.delete ++ Entry.writes es).map Write.key).Nodup) :
    (s.writeEntries deletes es).SendsAcceptable s.table fun _ => True := by
  refine Operation.SendsAcceptable.bind (P := fun items => Entry.items es = .ok items) ?_ ?_
  · intro m st hst
    refine ⟨hst, ?_⟩
    cases Entry.items es with
    | error fault => exact nofun
    | ok items =>
      rintro _ ⟨⟩
      rfl
  · intro items hitems
    rw [Entry.writes, ← Entry.eq_filterMap_of_items hitems] at hkeys
    exact Client.sendsAcceptable_writeAll (c := s.client) hlimit deletes items hkeys

/-- Entries of different paths are stored with acceptable batches. -/
theorem sendsAcceptable_storeEntries (hlimit : s.settings.batchWriteLimit ≤ maxBatch)
    {es : List Entry} (hes : es.Pairwise fun d e => d.path ≠ e.path) :
    (s.writeEntries [] es).SendsAcceptable s.table fun _ => True :=
  sendsAcceptable_writeEntries hlimit [] es (Entry.nodup_writes hes)

theorem sendsAcceptable_put (hlimit : s.settings.batchWriteLimit ≤ maxBatch) (e : Entry) :
    (s.put e).SendsAcceptable s.table fun _ => True :=
  s.composed_bound.bindAcceptable fun _ =>
    ((s.composed_withMissingAncestors e).sendsAcceptable (s.gives_withMissingAncestors e)).bind
      fun _ hes => (sendsAcceptable_storeEntries hlimit hes).discard

theorem sendsAcceptable_putAll (hlimit : s.settings.batchWriteLimit ≤ maxBatch) (es : List Entry) :
    (s.putAll es).SendsAcceptable s.table fun _ => True :=
  s.composed_bound.bindAcceptable fun _ =>
    (sendsAcceptable_storeEntries hlimit (Entry.pairwise_path_withAncestors es)).discard

theorem sendsAcceptable_putListing (hlimit : s.settings.batchWriteLimit ≤ maxBatch) (l : Listing) :
    (s.putListing l).SendsAcceptable s.table fun _ => True :=
  s.composed_bound.bindAcceptable fun _ => (s.composed_withMissingAncestors _).bindAcceptable
    fun _ => (sendsAcceptable_storeEntries hlimit (Entry.pairwise_keepLast _)).discard

theorem sendsAcceptable_move (hlimit : s.settings.batchWriteLimit ≤ maxBatch)
    (deletes : Option (List Path)) (creates : Option (List Entry)) :
    (s.move deletes creates).SendsAcceptable s.table fun _ => True := by
  have hstore (es : List Entry) : (s.writeEntries [] (Entry.keepLast es) >>= fun _ =>
      pure ()).SendsAcceptable s.table fun _ => True :=
    (sendsAcceptable_storeEntries hlimit (Entry.pairwise_keepLast es)).discard
  unfold move
  split
  · exact sendsAcceptable_pure trivial
  · refine s.composed_bound.bindAcceptable fun _ => ?_
    cases deletes with
    | none => exact hstore _
    | some paths =>
      exact composed_now.bindAcceptable fun _ => (composed_pure _).bindAcceptable fun _ => hstore _

theorem sendsAcceptable_deleteSubtree? (hlimit : s.settings.batchWriteLimit ≤ maxBatch)
    (visits : Nat) (path : Path) :
    (s.deleteSubtree? visits path).SendsAcceptable s.table fun _ => True := by
  refine s.composed_bound.bindAcceptable fun _ =>
    (s.composed_get path false).bindAcceptable fun found => ?_
  split
  · exact sendsAcceptable_pure trivial
  · rename_i root _
    refine ((s.composed_collect? visits _).sendsAcceptable
      (Walk.gives_collect? s visits (Entry.isQueue_singleton root))).bind fun subtree hsubtree => ?_
    split
    · exact sendsAcceptable_pure trivial
    · rename_i es
      refine composed_now.bindAcceptable fun now => ?_
      have hpaths : (Entry.tombstones es now).Pairwise fun d e => d.path ≠ e.path :=
        Entry.pairwise_path_tombstones (hsubtree es rfl).1
      exact (sendsAcceptable_storeEntries hlimit hpaths).discard

theorem sendsAcceptable_removeSlices (hlimit : s.settings.batchWriteLimit ≤ maxBatch)
    {parts : List (List Key)} (hparts : ∀ keys ∈ parts, keys.Nodup) :
    (s.removeSlices parts).SendsAcceptable s.table fun _ => True := by
  induction parts with
  | nil => exact sendsAcceptable_pure trivial
  | cons keys further ih =>
    rw [List.forall_mem_cons] at hparts
    have hkeys : ((keys.map Write.delete ++ Entry.writes []).map Write.key).Nodup := by
      rw [Entry.writes_nil, List.append_nil, List.map_map]
      exact (List.map_id keys).symm ▸ hparts.1
    exact (Client.composed_pause _).bindAcceptable fun _ =>
      (sendsAcceptable_writeEntries hlimit keys [] hkeys).bind fun _ _ =>
        (ih hparts.2).bind fun _ _ => sendsAcceptable_pure trivial

theorem sendsAcceptable_prune (hlimit : s.settings.batchWriteLimit ≤ maxBatch) (before : Int64) :
    (s.prune before).SendsAcceptable s.table fun _ => True := by
  refine s.composed_bound.bindAcceptable fun _ =>
    ((Client.composed_retry (Program.asks_single rfl)).sendsAcceptable
      (s.client.gives_scan "prune" s.table (some (.expired before)))).bind fun expired hkeys => ?_
  refine sendsAcceptable_removeSlices hlimit fun part hpart => ?_
  exact (hkeys.filter _).sublist (sublist_of_mem_slices hpart)

end Store

/-! ## All that a store is asked for -/

/-- Whatever is exchanged with the simulated service, a service has answered so. -/
theorem Program.exists_answer_of_mem_exchanges {p : Program α} {h : Host Service} {y : Exchange}
    (hy : y ∈ p.exchanges Service.backend h) : ∃ s : Service, (s.answer y.1).1 = y.2 := by
  induction p generalizing h with
  | done a => cases hy
  | send r next ih =>
    rcases List.mem_cons.1 hy with rfl | hy
    · exact ⟨h.state, rfl⟩
    · exact ih _ hy
  | wait d next ih => exact ih _ hy
  | clock next ih => exact ih _ hy
  | tell n next ih => exact ih hy

namespace Action

variable {s : Store}

theorem sendsAcceptable_perform (hlimit : s.settings.batchWriteLimit ≤ maxBatch) (visits : Nat)
    (a : Action) : (a.perform s visits).SendsAcceptable s.table fun _ => True := by
  have hsingle {α : Type} {x : Operation α} (hx : x.Composed Request.IsSingle) :
      x.SendsAcceptable s.table fun _ => True := hx.sendsAcceptable (gives_any x)
  cases a with
  | use u =>
    cases u with
    | prepare => exact hsingle s.composed_prepare
    | get path hint => exact hsingle (s.composed_get path hint)
    | listChildren path => exact hsingle (s.composed_listChildren path)
    | put e => exact s.sendsAcceptable_put hlimit e
    | putAll es => exact s.sendsAcceptable_putAll hlimit es
    | putListing l => exact s.sendsAcceptable_putListing hlimit l
    | delete path => exact hsingle (s.composed_delete path)
    | forget path => exact hsingle (s.composed_forget path)
    | deleteSubtree path => exact s.sendsAcceptable_deleteSubtree? hlimit visits path
    | move deletes creates => exact s.sendsAcceptable_move hlimit deletes creates
    | prune before => exact s.sendsAcceptable_prune hlimit before
    | destroy => exact hsingle s.composed_destroy
  | updateCapacity read write => exact hsingle (s.composed_updateCapacity read write)
  | updateParameters parameters => exact hsingle (s.composed_updateParameters parameters)
  | close => exact sendsAcceptable_pure trivial
  | diagnostics =>
    show s.diagnostics.SendsAcceptable s.table _
    rw [Store.diagnostics_eq]
    exact s.composed_facts.bindAcceptable fun facts _ _ hst => ⟨hst, fun _ _ => trivial⟩

/-- **No batch is refused for what it holds.** Whatever a store with settings that are fit for use is
asked for, and whatever its table holds and is planned for the service, each batch that it sends
holds at least one write and at most 25, for different keys. So the service never answers that there
is something wrong with a batch. -/
theorem isAcceptable_exchanges (s : Store) (hcheck : s.settings.check = .ok ()) (a : Action)
    (visits : Nat) (m : Memory) (h : Host Service) (name : String) (writes : List Write)
    (answer : Except ServiceError (List Write))
    (hsent : ⟨.batchWrite name writes, answer⟩ ∈
      (a.perform s visits).exchanges Service.backend m h) :
    1 ≤ writes.length ∧ writes.length ≤ 25 ∧ (writes.map Write.key).Nodup ∧
      ∀ message, answer ≠ .error (.validation message) := by
  have hlimit := (Settings.check_eq_ok_iff.1 hcheck).2.2.2.1
  have hempty : AllAcceptable [] := nofun
  have hall := (a.sendsAcceptable_perform hlimit visits m (h.state.items? s.table, [])
    hempty).run_logged (Service.within_anyWorld s.table) trivial trivial
  obtain ⟨hpos, hlength, hnodup⟩ : (Request.batchWrite name writes).IsAcceptable :=
    hall.1 _ hsent
  obtain ⟨service, hservice⟩ := Program.exists_answer_of_mem_exchanges hsent
  refine ⟨hpos, hlength, hnodup, fun message herror => ?_⟩
  exact service.answer_ne_validation ⟨hpos, hlength, hnodup⟩ message (hservice.trans herror)

end Action

namespace Sample

/-- A move that deletes what it creates, with repetitions. -/
def crossedMove : Action :=
  .use (.move (some [file, directory, file]) (some [.file file 1 2 3 "o", .file file 4 5 6 "o"]))

/-- A service that throttles one request, makes one fail, and leaves out a write of the first
batch. -/
def crossedHost : Host Service := stage.host.planned ⟨1, 1, .ofList [(2, 1)], 0, []⟩

/-- The move sends one batch three times, and a fourth one with what was left out. All are
acceptable. -/
theorem isAcceptable_exchanges_crossedMove :
    store.settings.check = .ok () ∧
    ((crossedMove.perform store 0).run Service.backend stage.memory
      crossedHost).host.state.counts.batchSizes = [2, 2, 2, 1] ∧
    ∃ name writes, ∃ answer : Except ServiceError (List Write),
      ⟨.batchWrite name writes, answer⟩ ∈
        (crossedMove.perform store 0).exchanges Service.backend stage.memory crossedHost ∧
      1 ≤ writes.length ∧ writes.length ≤ 25 ∧ (writes.map Write.key).Nodup ∧
      ∀ message, answer ≠ .error (.validation message) := by
  have hcheck : store.settings.check = .ok () := by decide +kernel
  have hbatch : ((crossedMove.perform store 0).exchanges Service.backend stage.memory
      crossedHost).any (fun y => y.1.isBatch) = true := by decide +kernel
  obtain ⟨⟨r, answer⟩, hsent, hr⟩ := List.any_eq_true.1 hbatch
  cases r with
  | batchWrite name writes =>
    exact ⟨hcheck, by decide +kernel, name, writes, answer, hsent,
      Action.isAcceptable_exchanges store hcheck crossedMove 0 stage.memory crossedHost name writes
        answer hsent⟩
  | _ => cases hr

end Sample

end TableTree
