import TableTree.Proofs.Delivery
import TableTree.Proofs.Tree.Kinds
import TableTree.Store.Basic

/-!
# What becomes of a list of writes

Writes are done in their order, whatever is throttled, fails or is cut short on the way: a run that
fails has done some of them from the front, and a run that succeeds has done them all.

Results:

* `Commits`: a front part of a list of writes is done, and all of it after success.
* `Client.always_writeAll`: writing in batches commits.
* `Store.always_storeEntries`: writing entries commits their items.
-/

namespace TableTree

open Operation

variable {α β ε : Type} {t : String} {time : Int64}

/-- From `items`, some of the writes have been done, from the front; after success, all of them. -/
def Commits (items : Items) (writes : List Write) : Except ε α → Option Items → Prop :=
  EndsIn (fun _ st => st = some (items.applyAll writes))
    (fun st => ∃ k, st = some (items.applyAll (writes.take k)))

/-- Nothing has been written yet when a run fails. -/
theorem commits_error {items : Items} {writes : List Write} {e : ε} :
    Commits items writes (.error e : Except ε α) (some items) :=
  ⟨0, rfl⟩

theorem Commits.exists_take {items : Items} {writes : List Write} {r : Except ε α}
    {st : Option Items} (h : Commits items writes r st) :
    ∃ k, st = some (items.applyAll (writes.take k)) := by
  cases r with
  | ok a => exact ⟨writes.length, by rw [List.take_length]; exact h⟩
  | error e => exact h

/-- An operation that only reads, followed by one that commits. -/
theorem Operation.Always.thenCommits {W : World (Option Items)} {m : Memory} {items : Items}
    {writes : List Write} {x : Operation α} {f : α → Operation β} {P : α → Option Items → Prop}
    (hx : x.Always W m (some items) fun r _ st => EndsIn P (· = some items) r st)
    (hf : ∀ a m' st, P a st → (f a).Always W m' st fun r _ st' => Commits items writes r st') :
    (x >>= f).Always W m (some items) fun r _ st => Commits items writes r st := by
  refine hx.bind hf ?_
  rintro e m' _ rfl
  exact commits_error

/-- What is committed after a list of writes is committed with the list in front. -/
theorem Commits.cons_append {items : Items} {ws ws' : List Write} {r : Except ε α}
    {st : Option Items} (h : Commits (items.applyAll ws) ws' r st) :
    Commits items (ws ++ ws') r st := by
  cases r with
  | ok a => exact h.trans (by rw [Items.applyAll_append])
  | error e =>
    obtain ⟨k, hk⟩ := h
    refine ⟨ws.length + k, ?_⟩
    rw [hk, List.take_length_add_append, Items.applyAll_append]

/-- A failure in the middle of the first of two lists is one in the middle of both. -/
theorem Commits.of_error {items : Items} {ws ws' : List Write} {e : ε} {st : Option Items}
    (h : Commits items ws (.error e : Except ε α) st) :
    Commits items (ws ++ ws') (.error e : Except ε α) st := by
  obtain ⟨k, hk⟩ := h
  refine ⟨min k ws.length, ?_⟩
  rw [hk, List.take_append_of_le_length (Nat.min_le_right ..), ← List.take_take,
    List.take_length]

namespace Client

variable {c : Client} {m : Memory} {items : Items}

/-- Writing in batches commits the writes in their order. -/
theorem always_writeAll (hc : c.table = t) (limit : Nat) (deletes : List Key) (puts : List Item) :
    (c.writeAll limit deletes puts).Always (tableWorld t time) m (some items) fun r _ st =>
      Commits items (deletes.map Write.delete ++ puts.map Write.put) r st := by
  have hW : (tableWorld t time).TakesFromFront c.table := fun _ _ _ _ h => served_of_answers hc h
  refine ((always_writeAll_logged hW limit deletes puts m (some items, [])).imp ?_).of_logged
  intro r _ st h
  cases r with
  | ok n => exact h.2.of_all
  | error e =>
    obtain ⟨o, ⟨ds, -, hitems, -⟩, -⟩ := h
    exact ⟨processed ds, hitems⟩

end Client

/-! ## Entries -/

/-- Entries of which none is at a root have items. -/
theorem Entry.items_eq_ok {es : List Entry} (h : ∀ e ∈ es, e.path.isRoot = false) :
    Entry.items es = .ok (es.filterMap Entry.item?) := by
  induction es with
  | nil => rfl
  | cons e es ih =>
    obtain ⟨k, hk⟩ := Path.exists_key?_of_isRoot (h e List.mem_cons_self)
    have hes := ih fun d hd => h d (List.mem_cons_of_mem e hd)
    rw [Entry.items] at hes ⊢
    rw [List.mapM_cons, Entry.item_of_key? hk, hes, List.filterMap_cons, Entry.item?_of_key? hk]
    rfl

/-- The items of a list of entries, if it has them all. -/
theorem Entry.eq_filterMap_of_items {es : List Entry} {items : List Item}
    (h : Entry.items es = .ok items) : items = es.filterMap Entry.item? := by
  induction es generalizing items with
  | nil => exact (Except.ok.inj h).symm
  | cons e es ih =>
    rw [Entry.items, List.mapM_cons] at h
    cases hkey : e.path.key? with
    | none =>
      rw [Entry.item, Path.key, hkey] at h
      cases h
    | some key =>
      rw [item_of_key? hkey] at h
      cases hes : es.mapM Entry.item with
      | error fault =>
        rw [hes] at h
        cases h
      | ok rest =>
        rw [hes] at h
        cases h
        rw [List.filterMap_cons, item?_of_key? hkey, ih hes]

/-- What is committed of the writes of entries stores some of them, from the front. -/
theorem Commits.exists_storeAll_take {items : Items} {es : List Entry} {r : Except ε α}
    {st : Option Items} (h : Commits items (Entry.writes es) r st) :
    ∃ k, st = some (items.storeAll (es.take k)) := by
  obtain ⟨k, hk⟩ := h.exists_take
  obtain ⟨j, hj⟩ := items.exists_applyAll_take_writes es k
  exact ⟨j, hk.trans (congrArg some hj)⟩

/-- After success, the entries are stored. -/
theorem Commits.storeAll_of_ok {items : Items} {es : List Entry} {a : α} {st : Option Items}
    (h : Commits items (Entry.writes es) (.ok a : Except ε α) st) :
    st = some (items.storeAll es) :=
  h.trans (congrArg some (items.applyAll_writes es))

/-- After a run that commits entries has succeeded, they are stored. -/
theorem Commits.items?_of_run {x : Operation α} {m : Memory} {h : Host Service} {items : Items}
    {es : List Entry} {a : α}
    (hx : x.Always (tableWorld t h.now) m (some items) fun r _ st =>
      Commits items (Entry.writes es) r st)
    (hcalm : h.state.IsCalm) (hitems : h.state.items? t = some items)
    (hok : (x.run Service.backend m h).outcome = .ok a) :
    (x.run Service.backend m h).host.state.items? t = some (items.storeAll es) := by
  rw [← hitems] at hx
  have hcommits := (hx.run (Service.within_tableWorld t h.now) hcalm rfl).1
  rw [hok] at hcommits
  exact hcommits.storeAll_of_ok

namespace Store

variable {s : Store} {m : Memory} {items : Items}

/-- Writing entries commits the removals and the items. -/
theorem always_writeEntries (deletes : List Key) {es : List Entry}
    (h : ∀ e ∈ es, e.path.isRoot = false) :
    (s.writeEntries deletes es).Always (tableWorld s.table time) m (some items) fun r _ st =>
      Commits items (deletes.map .delete ++ Entry.writes es) r st := by
  unfold writeEntries
  rw [Entry.items_eq_ok h, always_ofPath_ok]
  exact Client.always_writeAll (c := s.client) rfl ..

/-- Writing entries alone commits their items. -/
theorem always_storeEntries {es : List Entry} (h : ∀ e ∈ es, e.path.isRoot = false) :
    (s.writeEntries [] es).Always (tableWorld s.table time) m (some items) fun r _ st =>
      Commits items (Entry.writes es) r st :=
  always_writeEntries [] h

end Store

end TableTree
