import Mathlib.Data.List.Nodup
import TableTree.Proofs.Undisturbed.Service

/-!
# Requests that are done or refused

A request for items can be refused for many reasons: the plan makes it fail, its batch has a wrong
size or two writes of one key, or its table is missing. Whatever the reason is, the tables stay as
they were. A request that is granted has done its writes in order, but for those at the end of a
batch that are handed back, and nothing else.

Results:

* `Request.writes`, `Request.handedBack`: what a request is to write, and what it hands back of it.
* `Items.item?_applyAll_of_mem`: each of several writes with different keys takes effect.
* `Service.Whole`: what a request may leave; `Service.whole_serve`: every request for items does.
* `Service.answer_whole`: no request for items is done in part and refused, or loses a write.
-/

namespace TableTree

variable {α : Type}

/-- The item that a write leaves for its key. -/
def Write.item? : Write → Option Item
  | .put item => some item
  | .delete _ => none

/-- The writes that a request for items asks for. -/
def Request.writes : Request → List Write
  | .putItem _ item => [.put item]
  | .deleteItem _ key => [.delete key]
  | .batchWrite _ writes => writes
  | _ => []

/-- The writes that the reply to a request hands back. -/
def Request.handedBack : (r : Request) → r.Reply → List Write
  | .batchWrite .., left => left
  | .describeTable _, _ | .createTable .., _ | .deleteTable _, _ | .updateTable .., _
  | .getItem .., _ | .putItem .., _ | .deleteItem .., _ | .query .., _ | .scan .., _ => []

namespace Items

/-- Each of several writes with different keys takes effect. -/
theorem item?_applyAll_of_mem {writes : List Write} (hnodup : (writes.map Write.key).Nodup)
    {w : Write} (hw : w ∈ writes) (items : Items) :
    (items.applyAll writes).item? w.key = w.item? := by
  obtain ⟨before, after, rfl⟩ := List.append_of_mem hw
  have hafter : w.key ∉ after.map Write.key := by
    rw [List.map_append, List.map_cons] at hnodup
    exact (List.nodup_cons.1 hnodup.of_append_right).1
  rw [applyAll_append, applyAll_cons, item?_applyAll_of_not_mem hafter, item?_apply, if_pos rfl]
  cases w <;> rfl

end Items

/-- Writes with different keys that are split are each in one of the two parts. -/
theorem Write.mem_iff_not_mem_of_nodup {done left : List Write}
    (hnodup : ((done ++ left).map Write.key).Nodup) {w : Write} (hw : w ∈ done ++ left) :
    w ∈ done ↔ w ∉ left := by
  have hdisjoint := List.disjoint_of_nodup_append (hnodup.of_map Write.key)
  exact ⟨fun hdone hleft => hdisjoint hdone hleft, (List.mem_append.1 hw).resolve_right⟩

namespace Service

/-- What a request for items may leave. If it is refused, the tables are what they were. If it is
granted, its table is there and has got its writes, which are for different keys, but for those at
their end that are handed back. -/
def Whole (s : Service) (r : Request) : r.Answer → Service → Prop :=
  EndsIn
    (fun reply s' => ∃ done, r.writes = done ++ r.handedBack reply ∧
      (r.writes.map Write.key).Nodup ∧ (s.items? r.table).isSome ∧
      s'.tables = (s.mapItems r.table (·.applyAll done)).tables)
    (fun s' => s'.tables = s.tables)

theorem tables_mapItems_congr {s s' : Service} (h : s'.tables = s.tables) (name : String)
    (f : Items → Items) : (s'.mapItems name f).tables = (s.mapItems name f).tables := by
  unfold mapItems setTable
  rw [h]
  split <;> simp [h]

/-- What a request leaves depends on the tables before it only. -/
theorem Whole.of_tables_eq {s s' : Service} {r : Request} {result : r.Answer × Service}
    (h : s'.tables = s.tables) (hwhole : Whole s' r result.1 result.2) :
    Whole s r result.1 result.2 := by
  obtain ⟨answer, after⟩ := result
  cases answer with
  | error e => exact Eq.trans hwhole h
  | ok reply =>
    obtain ⟨done, hsplit, hnodup, htable, heq⟩ := hwhole
    exact ⟨done, hsplit, hnodup, by rwa [items?, ← h], heq.trans (tables_mapItems_congr h _ _)⟩

/-- A request that the plan makes fail leaves the tables alone. -/
theorem whole_unlessFault {s : Service} {r : Request} {serve : Service → r.Answer × Service}
    (h : Whole s r (serve s).1 (serve s).2) :
    Whole s r (s.unlessFault serve).1 (s.unlessFault serve).2 := by
  rcases s.unlessFault_cases serve with heq | ⟨e, heq, -⟩
  · rwa [heq]
  · rw [heq]
    exact (sameTables_takeFault s).tables

/-- A request that writes nothing and leaves the tables alone. -/
theorem whole_read {s s' : Service} {r : Request} (hwrites : r.writes = [])
    (hback : ∀ reply, r.handedBack reply = []) (hsame : s'.tables = s.tables) {answer : r.Answer}
    (htable : ∀ reply, answer = .ok reply → (s.items? r.table).isSome) :
    Whole s r answer s' := by
  cases answer with
  | error e => exact hsame
  | ok reply =>
    refine ⟨[], by rw [hwrites, hback]; rfl, by rw [hwrites]; exact List.nodup_nil,
      htable reply rfl, ?_⟩
    have hid : (s.mapItems r.table (·.applyAll [])) = s := s.mapItems_id r.table
    rw [hid, hsame]

theorem isSome_items?_of_readItems {s : Service} {name : String} {f : Items → α} {a : α}
    (h : s.readItems name f = .ok a) : (s.items? name).isSome := by
  unfold readItems at h
  cases hitems : s.items? name with
  | none => simp [hitems] at h
  | some items => rfl

/-- A single write is done, or its table is missing. -/
theorem writeItems_cases (s : Service) (name : String) (f : Items → Items) :
    (∃ e, s.writeItems name f = (.error e, s)) ∨
      (s.items? name).isSome ∧ s.writeItems name f = (.ok (), s.mapItems name f) := by
  unfold writeItems
  cases h : s.items? name with
  | none => exact .inl ⟨_, rfl⟩
  | some items => exact .inr ⟨rfl, rfl⟩

/-- A batch is refused, or done but for what is handed back. -/
theorem whole_batchWrite (s : Service) (call : Nat) (name : String) (writes : List Write) :
    Whole s (.batchWrite name writes) (s.batchWrite call name writes).1
      (s.batchWrite call name writes).2 := by
  by_cases htakes : s.TakesBatch name writes
  · rw [htakes.batchWrite_eq call]
    exact ⟨writes.take (s.served call writes), (List.take_append_drop ..).symm, htakes.nodup,
      htakes.isSome_items?, tables_mapItems_congr (s.sameTables_takeLeftover call).tables _ _⟩
  · obtain ⟨e, s', heq, -, hsame⟩ := exists_batchWrite_eq_error htakes call
    rw [heq]
    exact hsame.tables

/-- Every request for items is done or refused. -/
theorem whole_serve {s : Service} (hcalm : s.IsCalm) {r : Request} (hr : r.isControl = false) :
    Whole s r (serve r s).1 (serve r s).2 := by
  cases r with
  | getItem name key =>
    refine whole_unlessFault (r := .getItem name key) (whole_read rfl (fun _ => rfl) ?_ ?_)
    · rw [getItem, serveRead_eq hcalm]
    · exact fun reply => isSome_items?_of_readItems
  | query name parent filter =>
    exact whole_unlessFault (r := .query name parent filter)
      (whole_read rfl (fun _ => rfl) rfl fun reply => isSome_items?_of_readItems)
  | scan name filter =>
    exact whole_unlessFault (r := .scan name filter)
      (whole_read rfl (fun _ => rfl) rfl fun reply => isSome_items?_of_readItems)
  | putItem name item =>
    refine whole_unlessFault (r := .putItem name item) ?_
    rcases s.writeItems_cases name (·.apply (.put item)) with ⟨e, heq⟩ | ⟨htable, heq⟩
    · rw [heq]
      exact rfl
    · rw [heq]
      exact ⟨[.put item], rfl, List.nodup_singleton _, htable, rfl⟩
  | deleteItem name key =>
    refine whole_unlessFault (r := .deleteItem name key) ?_
    rcases s.writeItems_cases name (·.apply (.delete key)) with ⟨e, heq⟩ | ⟨htable, heq⟩
    · rw [heq]
      exact rfl
    · rw [heq]
      exact ⟨[.delete key], rfl, List.nodup_singleton _, htable, rfl⟩
  | batchWrite name writes =>
    exact whole_unlessFault (r := .batchWrite name writes) (whole_batchWrite s _ name writes)
  | _ => cases hr

theorem whole_answer {s : Service} (hcalm : s.IsCalm) {r : Request} (hr : r.isControl = false) :
    Whole s r (s.answer r).1 (s.answer r).2 :=
  (whole_serve ((s.sameTables_count r).isCalm hcalm) hr).of_tables_eq (s.sameTables_count r).tables

theorem getElem?_tables_mapItems_of_ne (s : Service) {name t : String} (h : t ≠ name)
    (f : Items → Items) : (s.mapItems name f).tables[t]? = s.tables[t]? := by
  unfold mapItems
  split
  · rfl
  · simp [setTable, Std.ExtTreeMap.getElem?_insert, Ne.symm h]

/-- **Done or refused.** While nobody else is going to write, a request for items that is refused
leaves all tables as they were. One that is granted splits its writes into those that it did and
those behind them that it hands back, and each write is one or the other. Those that it did take
effect in its table, which is there, and no other key and no other table is touched. -/
theorem answer_whole {s : Service} (hcalm : s.IsCalm) {r : Request} (hr : r.isControl = false) :
    (∀ e, (s.answer r).1 = .error e → (s.answer r).2.tables = s.tables) ∧
    ∀ reply, (s.answer r).1 = .ok reply → ∃ done items,
      r.writes = done ++ r.handedBack reply ∧
      (∀ w ∈ r.writes, w ∈ done ↔ w ∉ r.handedBack reply) ∧
      s.items? r.table = some items ∧
      (s.answer r).2.items? r.table = some (items.applyAll done) ∧
      (∀ w ∈ done, (items.applyAll done).item? w.key = w.item?) ∧
      (∀ key, key ∉ done.map Write.key → (items.applyAll done).item? key = items.item? key) ∧
      ∀ t, t ≠ r.table → (s.answer r).2.tables[t]? = s.tables[t]? := by
  have hwhole := whole_answer hcalm hr
  constructor
  · intro e he
    rw [he] at hwhole
    exact hwhole
  · intro reply hreply
    rw [hreply] at hwhole
    obtain ⟨done, hsplit, hnodup, htable, htables⟩ := hwhole
    obtain ⟨items, hitems⟩ := Option.isSome_iff_exists.1 htable
    rw [hsplit] at hnodup
    have hdone : (done.map Write.key).Nodup := by
      rw [List.map_append] at hnodup
      exact hnodup.of_append_left
    refine ⟨done, items, hsplit, fun w hw => ?_, hitems, ?_,
      fun w hw => Items.item?_applyAll_of_mem hdone hw items,
      fun key hkey => Items.item?_applyAll_of_not_mem hkey items, fun t ht => ?_⟩
    · exact Write.mem_iff_not_mem_of_nodup hnodup (hsplit ▸ hw)
    · have hafter := s.items?_mapItems r.table r.table (·.applyAll done)
      rw [if_pos rfl, hitems] at hafter
      rw [items?, htables]
      exact hafter
    · rw [htables, getElem?_tables_mapItems_of_ne s ht]

end Service

/-! ## A batch that is done in part -/

namespace Sample

/-- A service with an empty table that hands back the last write of its first batch. -/
def shortOfOne : Service where
  region := "r"
  tables := .ofList [("t", (⟨"ACTIVE", {}, ⟨1, 1⟩, .looks 0, ∅⟩ : Service.Table))]
  plan := { leftovers := .ofList [(0, 1)] }

/-- An item is stored, and another one is removed. -/
def storeAndRemove : List Write := [.put (.bare ⟨"/b", "a"⟩), .delete ⟨"/b", "c"⟩]

/-- The item is stored, and the removal is handed back. -/
theorem shortOfOne_storesFirst :
    shortOfOne.IsCalm ∧ (Request.batchWrite "t" storeAndRemove).isControl = false ∧
    (shortOfOne.answer (.batchWrite "t" storeAndRemove)).1 = .ok [.delete ⟨"/b", "c"⟩] ∧
    ∃ items, (shortOfOne.answer (.batchWrite "t" storeAndRemove)).2.items? "t" = some items ∧
      items.item? ⟨"/b", "a"⟩ = some (.bare ⟨"/b", "a"⟩) := by
  have hreply : (shortOfOne.answer (.batchWrite "t" storeAndRemove)).1 =
      .ok [.delete ⟨"/b", "c"⟩] := by
    decide +kernel
  have hwhole :=
    Service.answer_whole (s := shortOfOne) rfl (r := .batchWrite "t" storeAndRemove) rfl
  obtain ⟨done, items, hsplit, -, -, hafter, hdone, -⟩ := hwhole.2 _ hreply
  refine ⟨rfl, rfl, hreply, _, hafter, ?_⟩
  have hput : done = [.put (.bare ⟨"/b", "a"⟩)] := (List.append_cancel_right hsplit).symm
  exact hdone (.put (.bare ⟨"/b", "a"⟩)) (hput ▸ List.mem_singleton_self _)

end Sample

end TableTree
