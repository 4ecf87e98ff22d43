import TableTree.Proofs.Binding
import TableTree.Proofs.Interleaving.Crew

/-!
# One store amid others

What a store does amid others is told apart from what they do: before each of its requests they may
have changed the items, and all that is known of that is a relation between the items before and
after. The store keeps to the same relation if each of its own requests does.

Results:

* `Drift`, `amid`: how items may change, and a table as a store meets it amid others.
* `Program.Always.flag`: what the store has done keeps to the relation at each moment.
* `Program.always_ask_amid`, `Program.always_ask_batch_amid`: what a read and a batch leave.
* `Store.always_bound_bind_amid`: binding.
* `Client.Advances.always_writeAll`: writing in batches, in any world.
* `Drift.Stores`, `Store.always_storeEntries_amid`: storing entries, whatever others do in between.
-/

namespace TableTree

open Operation

variable {α β σ : Type} {t : String}

/-- How the items of a table may change, by whatever number of steps. -/
structure Drift where
  Leads : Items → Items → Prop
  refl : ∀ items, Leads items items
  trans : ∀ {items items' items'' : Items}, Leads items items' → Leads items' items'' →
    Leads items items''

namespace Drift

variable {d : Drift}

/-- The items are still there, and have changed as they may. -/
def Follows (d : Drift) (st st' : Option Items) : Prop :=
  ∀ items, st = some items → ∃ items', st' = some items' ∧ d.Leads items items'

theorem follows_refl (d : Drift) (st : Option Items) : d.Follows st st :=
  fun items h => ⟨items, h, d.refl items⟩

theorem follows_some {items items' : Items} :
    d.Follows (some items) (some items') ↔ d.Leads items items' := by
  constructor
  · intro h
    obtain ⟨_, ⟨⟩, hleads⟩ := h items rfl
    exact hleads
  · rintro hleads _ ⟨⟩
    exact ⟨items', rfl, hleads⟩

/-- What holds of items and of whatever they may change to. -/
def Stable (d : Drift) (I : Items → Prop) : Prop :=
  ∀ items items', d.Leads items items' → I items → I items'

theorem Stable.and {I J : Items → Prop} (hI : d.Stable I) (hJ : d.Stable J) :
    d.Stable fun items => I items ∧ J items :=
  fun items items' h hitems => ⟨hI items items' h hitems.1, hJ items items' h hitems.2⟩

end Drift

/-- The table `t` as a store meets it amid others. Before each of its requests, the items may have
changed as `d` allows. The second part of the state is whether each request of the store itself has
changed them so. -/
def amid (t : String) (d : Drift) : World (Option Items × Prop) where
  answers r x answer x' := ∃ st, d.Follows x.1 st ∧ (tableWorld t 0).answers r st answer x'.1 ∧
    x'.2 = (x.2 ∧ d.Follows st x'.1)

variable {d : Drift} {I : Items → Prop} {x : Option Items × Prop}

/-- Each request may be answered somehow. -/
theorem exists_answers_tableWorld (t : String) (time : Int64) (r : Request) (st : Option Items) :
    ∃ answer st', (tableWorld t time).answers r st answer st' := by
  by_cases hr : r.table = t
  · cases r with
    | describeTable name =>
      cases st with
      | none => exact ⟨.error (.resourceNotFound ""), none, (if_pos hr).mpr ⟨rfl, rfl⟩⟩
      | some items =>
        refine ⟨.ok ⟨"", "", "", {}, ⟨0, 0⟩, 0, 0⟩, some items, (if_pos hr).mpr ⟨rfl, ?_⟩⟩
        exact Option.some_ne_none items
    | createTable name keySchema capacity =>
      exact ⟨.error (.resourceNotFound ""), st, (if_pos hr).mpr (.inl rfl)⟩
    | _ => exact ⟨.error (.resourceNotFound ""), st, (if_pos hr).mpr rfl⟩
  · exact ⟨.error (.resourceNotFound ""), st, (if_neg hr).mpr rfl⟩

/-- If all that a store does changes the items as they may in the end, so it is at each moment. -/
theorem Program.Always.flag {p : Program α} (h : p.Always (amid t d) x fun _ x' => x'.2) : x.2 := by
  induction p generalizing x with
  | done a => exact h
  | send r next ih =>
    obtain ⟨answer, st', hanswer⟩ := exists_answers_tableWorld t 0 r x.1
    exact (ih answer (h answer (st', x.2 ∧ d.Follows x.1 st')
      ⟨x.1, d.follows_refl x.1, hanswer, rfl⟩)).1
  | wait d next ih => exact ih .elapsed (h .elapsed)
  | clock next ih => exact ih 0 (h 0 trivial)
  | tell n next ih => exact ih h

/-! ## What a store knows -/

/-- The table is there, `I` holds of its items, and the store has changed them as it may. -/
def Kept (I : Items → Prop) (x : Option Items × Prop) : Prop :=
  x.2 ∧ ∃ items, x.1 = some items ∧ I items

theorem Kept.imp {J : Items → Prop} (h : Kept I x) (hJ : ∀ items, I items → J items) :
    Kept J x := by
  obtain ⟨hflag, items, hitems, hI⟩ := h
  exact ⟨hflag, items, hitems, hJ items hI⟩

/-- What is known before a request is known of the items that it is answered from. -/
theorem Kept.of_answers (hI : d.Stable I) {r : Request} (hr : r.table = t) (hx : Kept I x)
    {answer : r.Answer} {x' : Option Items × Prop} (h : (amid t d).answers r x answer x') :
    ∃ items, I items ∧ Served r (some items) answer x'.1 ∧
      (d.Follows (some items) x'.1 → x'.2) := by
  obtain ⟨hflag, items, hitems, hholds⟩ := hx
  obtain ⟨st, hst, hanswer, hflag'⟩ := h
  obtain ⟨items', rfl, hleads⟩ := hst items hitems
  refine ⟨items', hI items items' hleads hholds, served_of_answers hr hanswer, fun hfollows => ?_⟩
  rw [hflag']
  exact ⟨hflag, hfollows⟩

/-- What is known is known still if the items stay as they are. -/
theorem Kept.of_eq {items : Items} (hst : x.1 = some items)
    (hflag : d.Follows (some items) x.1 → x.2) (hholds : I items) : Kept I x :=
  ⟨hflag (hst ▸ d.follows_refl _), items, hst, hholds⟩

/-- A read is from items of which is known what was known before. -/
theorem Program.always_ask_amid (hI : d.Stable I) {r : Request} {f : Items → r.Reply}
    (hr : r.table = t)
    (hread : ∀ st answer st', Served r st answer st' → Reads st f answer st') (hx : Kept I x) :
    (ask r).Always (amid t d) x fun answer x' =>
      EndsIn (fun a => Kept fun items => I items ∧ a = f items) (Kept I) answer x' := by
  rw [always_ask]
  intro answer x' h
  obtain ⟨items, hholds, hserved, hflag⟩ := hx.of_answers hI hr h
  have hreads := hread _ _ _ hserved
  cases answer with
  | ok a =>
    obtain ⟨hst, _, ⟨⟩, ha⟩ := hreads
    exact .of_eq hst hflag ⟨hholds, ha⟩
  | error e => exact .of_eq hreads hflag hholds

/-- A batch is done from the front, and what is left of it is to be sent again. -/
theorem Program.always_ask_batch_amid (hI : d.Stable I) {batch : List Write}
    {J : List Write → Items → Prop} (hx : Kept I x)
    (hbatch : ∀ items k, I items → d.Leads items (items.applyAll (batch.take k)) ∧
      J (batch.drop k) (items.applyAll (batch.take k))) :
    (ask (.batchWrite t batch)).Always (amid t d) x fun answer x' =>
      EndsIn (fun left => Kept (J left)) (Kept I) answer x' := by
  rw [always_ask]
  intro answer x' h
  obtain ⟨items, hholds, hserved, hflag⟩ := hx.of_answers hI (r := .batchWrite t batch) rfl h
  cases answer with
  | ok left =>
    obtain ⟨_, k, ⟨⟩, rfl, hst⟩ := hserved
    obtain ⟨hleads, hJ⟩ := hbatch items k hholds
    exact ⟨hflag (hst ▸ Drift.follows_some.2 hleads), _, hst, hJ⟩
  | error e => exact .of_eq hserved hflag hholds

/-! ## Binding -/

/-- The table is there for looks at it and reads from it. -/
theorem hasTable_amid (hI : d.Stable I) : (amid t d).HasTable t (Kept I) where
  describe := by
    intro x hx
    rw [Program.always_ask]
    intro answer x' h
    obtain ⟨items, hholds, hserved, hflag⟩ := hx.of_answers hI (r := .describeTable t) rfl h
    cases answer with
    | ok description => exact ⟨.of_eq hserved.1 hflag hholds, description, rfl⟩
    | error e => cases hserved.2
  read := by
    intro x key hx
    refine (Program.always_ask_amid hI (r := .getItem t key) rfl (fun _ _ _ h => h) hx).imp ?_
    intro answer x' h
    cases answer with
    | ok found => exact Kept.imp h fun _ => And.left
    | error e => exact h

/-- A store amid others starts from what was known, or it fails before it has begun. -/
theorem Store.always_bound_bind_amid {s : Store} (hI : d.Stable I) {m : Memory}
    (hx : Kept I x) {f : Binding → Operation α} {Q : α → Option Items × Prop → Prop}
    {E : Option Items × Prop → Prop} (hE : ∀ x, Kept I x → E x)
    (hf : ∀ binding m' x', Kept I x' → (f binding).Always (amid s.table d) m' x' fun r _ x'' =>
      EndsIn Q E r x'') :
    (s.bound >>= f).Always (amid s.table d) m x fun r _ x' => EndsIn Q E r x' :=
  (always_bound_of_hasTable (hasTable_amid hI) hx).bind hf fun _ _ => hE

/-! ## Writing in batches -/

namespace Client

variable {W : World σ} {c : Client} {J : List Write → σ → Prop}

/-- What a state says of the writes that are still to be done is said again by the state after a
batch, of the writes that are left. -/
def Advances (W : World σ) (c : Client) (J : List Write → σ → Prop) : Prop :=
  ∀ batch rest st, J (batch ++ rest) st → (Program.ask (.batchWrite c.table batch)).Always W st
    fun answer st' => EndsIn (fun left => J (left ++ rest)) (J (batch ++ rest)) answer st'

theorem Advances.always_sendBatch (h : Advances W c J) (batch rest : List Write) (m : Memory)
    {st : σ} (hst : J (batch ++ rest) st) :
    (c.sendBatch batch).Always W m st fun r _ st' =>
      EndsIn (fun left => J (left ++ rest)) (J (batch ++ rest)) r st' :=
  always_retry (fun st => h batch rest st) m hst

theorem Advances.always_resend (h : Advances W c J) (count : UInt32) (left rest : List Write)
    (m : Memory) {st : σ} (hst : J (left ++ rest) st) :
    (c.resend count left).Always W m st fun r _ st' =>
      EndsIn (fun _ => J rest) (fun st' => ∃ ws, J ws st') r st' := by
  fun_induction c.resend count left generalizing m st with
  | case1 count => exact hst
  | case2 count left hne ih =>
    refine always_backOff.bind ?_ ?_
    · rintro ⟨hlt⟩ m' _ rfl
      refine (h.always_sendBatch left rest m' hst).bind ?_ ?_
      · intro left' m'' st' hst'
        exact ih hlt left' m'' hst'
      · exact fun _ _ _ hst' => ⟨_, hst'⟩
    · rintro e m' _ rfl
      exact ⟨_, hst⟩

theorem Advances.always_writeSlice (h : Advances W c J) (slice rest : List Write) (m : Memory)
    {st : σ} (hst : J (slice ++ rest) st) :
    (c.writeSlice slice).Always W m st fun r _ st' =>
      EndsIn (fun _ => J rest) (fun st' => ∃ ws, J ws st') r st' := by
  unfold writeSlice
  refine (h.always_sendBatch slice rest m hst).bind ?_ ?_
  · exact fun left m' st' hst' => h.always_resend 0 left rest m' hst'
  · exact fun _ _ _ hst' => ⟨_, hst'⟩

/-- Writing in batches goes on until nothing is left, or fails with something left. -/
theorem Advances.always_writeAll (h : Advances W c J) (limit : Nat) (deletes : List Key)
    (puts : List Item) (m : Memory) {st : σ}
    (hst : J (deletes.map Write.delete ++ puts.map Write.put) st) :
    (c.writeAll limit deletes puts).Always W m st fun r _ st' =>
      EndsIn (fun _ => J []) (fun st' => ∃ ws, J ws st') r st' := by
  unfold writeAll
  generalize deletes.map Write.delete ++ puts.map Write.put = writes at hst
  refine Always.bind (P := fun r _ st' => EndsIn (fun _ => J []) (fun st' => ∃ ws, J ws st') r st')
    ?_ (fun _ _ _ h => h) fun _ _ _ h => h
  rw [← slices_flatten limit writes] at hst
  generalize slices limit writes = parts at hst
  induction parts generalizing m st with
  | nil => exact hst
  | cons slice parts ih =>
    rw [List.forM_eq_forM, List.forM_cons]
    rw [List.flatten_cons] at hst
    refine (h.always_writeSlice slice _ m hst).bind ?_ fun _ _ _ h => h
    exact fun _ m' st' hst' => ih m' hst'

end Client

/-! ## Storing entries -/

/-- What is known of items and of entries that are to be stored, while others change the items, and
stays known of the rest whenever some of the entries, from the front, are stored. -/
structure Drift.Stores (d : Drift) (J : List Entry → Items → Prop) : Prop where
  isRoot : ∀ {es items}, J es items → ∀ e ∈ es, e.path.isRoot = false
  stable : ∀ es, d.Stable (J es)
  store : ∀ {es items}, J es items → ∀ k,
    d.Leads items (items.storeAll (es.take k)) ∧ J (es.drop k) (items.storeAll (es.take k))

variable {J : List Entry → Items → Prop}

/-- Each batch stores some of the entries, from the front. -/
theorem Drift.Stores.advances (h : d.Stores J) (s : Store) :
    Client.Advances (amid s.table d) s.client fun ws =>
      Kept fun items => ∃ es, ws = Entry.writes es ∧ J es items := by
  intro batch rest x hx
  have hstable : d.Stable fun items => ∃ es, batch ++ rest = Entry.writes es ∧ J es items :=
    fun _ _ hleads ⟨es, hes, hJ⟩ => ⟨es, hes, h.stable es _ _ hleads hJ⟩
  refine Program.always_ask_batch_amid hstable hx ?_
  rintro items k ⟨es, hes, hJ⟩
  obtain ⟨j, htake, hdrop⟩ := Entry.exists_take_drop_batch (h.isRoot hJ) hes k
  obtain ⟨hleads, hJ'⟩ := h.store hJ j
  rw [htake, Items.applyAll_writes]
  exact ⟨hleads, _, hdrop, hJ'⟩

/-- A store that writes entries stores all of them, or fails with some that are not stored. -/
theorem Store.always_storeEntries_amid (h : d.Stores J) {s : Store} {m : Memory} {es : List Entry}
    (hx : Kept (J es) x) :
    (s.writeEntries [] es).Always (amid s.table d) m x fun r _ x' =>
      EndsIn (fun _ => Kept (J [])) (Kept fun items => ∃ es, J es items) r x' := by
  obtain ⟨-, _, -, hJ⟩ := id hx
  unfold writeEntries
  rw [Entry.items_eq_ok (h.isRoot hJ), always_ofPath_ok]
  refine ((h.advances s).always_writeAll _ [] _ m (hx.imp fun _ hJ => ⟨es, rfl, hJ⟩)).imp ?_
  intro r m' x' hr
  cases r with
  | ok n =>
    refine Kept.imp hr ?_
    rintro items ⟨es, hes, hJ⟩
    obtain rfl : es = [] := by
      cases es with
      | nil => rfl
      | cons e es =>
        obtain ⟨key, hkey⟩ := Path.exists_key?_of_isRoot (h.isRoot hJ e List.mem_cons_self)
        simp [Entry.writes, Entry.item?_of_key? hkey] at hes
    exact hJ
  | error e =>
    obtain ⟨ws, hr⟩ := hr
    refine Kept.imp hr ?_
    rintro items ⟨es, -, hJ⟩
    exact ⟨es, hJ⟩

end TableTree
