import TableTree.Proofs.Binding
import TableTree.Proofs.Exchanges
import TableTree.Proofs.Runs

/-!
# Binding while others make the table

Binding looks at the table first. If the table is there, binding only reads, and the version marker
decides. If the table is missed, binding makes it, and when somebody else has made it in the meantime
binding goes on as if it had made the table itself: it never reads the marker then, and the marker
that it writes replaces one that is there, whatever version that holds.

Results:

* `Settings.always_bind_logged`: what binding exchanges, whatever the answers are.
* `sharedWorld`, `Scripted.within_sharedWorld`: a table that others may make at any time.
* `Settings.always_bind_shared`: what binding does to such a table and to its marker.
-/

namespace TableTree

open Operation

variable {τ : Type} {W : World τ}

/-! ## What binding exchanges -/

theorem forall_mem_concat {I : Exchange → Prop} {log : List Exchange} {x : Exchange}
    (hlog : ∀ y ∈ log, I y) (hx : I x) : ∀ y ∈ log ++ [x], I y :=
  List.forall_mem_append.2 ⟨hlog, List.forall_mem_singleton.2 hx⟩

/-- A request that is tried again and again adds failures to the account until it succeeds. -/
theorem Client.always_retry_logged {c : Client} {operation target : String} {idempotent : Bool}
    {r : Request} {I : Exchange → Prop} (hI : ∀ e, I ⟨r, .error e⟩) (m : Memory)
    {st : τ × List Exchange} (hst : ∀ x ∈ st.2, I x) :
    (c.retry operation target idempotent (.ask r)).Always W.logged m st fun answer _ st' =>
      EndsIn (fun a (st' : τ × List Exchange) =>
          ∃ front, (∀ x ∈ front, I x) ∧ st'.2 = front ++ [⟨r, .ok a⟩])
        (fun st' => ∀ x ∈ st'.2, I x) answer st' := by
  refine always_retry (I := fun (st : τ × List Exchange) => ∀ x ∈ st.2, I x) ?_ m hst
  intro st₁ hst₁
  rw [Program.always_ask]
  rintro answer ⟨_, _⟩ ⟨-, rfl⟩
  cases answer with
  | ok a => exact ⟨st₁.2, hst₁, rfl⟩
  | error e => exact forall_mem_concat hst₁ (hI e)

namespace Settings

variable {s : Settings} {m : Memory} {st : τ × List Exchange}

/-- A wait for the table adds looks at it to the account. -/
theorem always_awaitActiveFor_logged {I : Exchange → Prop}
    (hI : ∀ answer, I ⟨.describeTable s.tableName, answer⟩) (looks : Nat) (m : Memory)
    (hst : ∀ x ∈ st.2, I x) :
    (s.awaitActiveFor looks).Always W.logged m st fun _ _ st' => ∀ x ∈ st'.2, I x := by
  induction looks generalizing m st with
  | zero => exact hst
  | succ looks ih =>
    rw [awaitActiveFor]
    refine (Client.always_retry_logged (fun e => hI (.error e)) m hst).bind ?_ fun _ _ _ h => h
    rintro description m' st₁ ⟨front, hfront, hlog⟩
    have hst₁ : ∀ x ∈ st₁.2, I x := by
      rw [hlog]
      exact forall_mem_concat hfront (hI _)
    split
    · exact hst₁
    · exact hst₁
    · exact Client.always_pause_bind (ih m' hst₁) fun _ => hst₁

/-- A look at the table, or one for its marker that finds none. -/
def Looks (s : Settings) (x : Exchange) : Prop :=
  x.1 = .describeTable s.tableName ∨
    ∃ answer, x = ⟨.getItem s.tableName Marker.key, answer⟩ ∧ ∀ marker, answer ≠ .ok (some marker)

/-- What looks for the marker have found: nothing so far, or a marker with the last one. -/
def HasRead (s : Settings) (log : List Exchange) : Option Item → Prop
  | none => ∀ x ∈ log, s.Looks x
  | some marker => ∃ front, (∀ x ∈ front, s.Looks x) ∧
      log = front ++ [⟨.getItem s.tableName Marker.key, .ok (some marker)⟩]

/-- What a table that is found is bound to: the first marker that is read decides. -/
def Found (s : Settings) (log : List Exchange) (r : Except StoreError Binding) : Prop :=
  ((∀ x ∈ log, s.Looks x) ∧ ∃ e, r = .error e) ∨
    ∃ marker, s.HasRead log (some marker) ∧
      r = (Marker.check s.tableName (some marker)).map (⟨false, ·, Marker.createdAt? marker⟩)

theorem always_readMarker_logged (m : Memory) (hst : ∀ x ∈ st.2, s.Looks x) :
    s.readMarker.Always W.logged m st fun r _ st' =>
      EndsIn (fun found st' => s.HasRead st'.2 found) (fun st' => ∀ x ∈ st'.2, s.Looks x) r st' := by
  have hI : ∀ e, s.Looks ⟨.getItem s.tableName Marker.key, .error e⟩ :=
    fun e => .inr ⟨.error e, rfl, nofun⟩
  refine (Client.always_retry_logged hI m hst).imp ?_
  intro r _ st' h
  cases r with
  | error e => exact h
  | ok found =>
    obtain ⟨front, hfront, hlog⟩ := h
    cases found with
    | none =>
      show ∀ x ∈ st'.2, _
      rw [hlog]
      exact forall_mem_concat hfront (.inr ⟨.ok none, rfl, nofun⟩)
    | some marker => exact ⟨front, hfront, hlog⟩

theorem always_awaitMarker_logged (backoff : Backoff) (m : Memory)
    (hst : ∀ x ∈ st.2, s.Looks x) :
    (s.awaitMarker backoff).Always W.logged m st fun r _ st' =>
      EndsIn (fun found st' => s.HasRead st'.2 found) (fun st' => ∀ x ∈ st'.2, s.Looks x) r st' := by
  -- on the waits that are left
  induction hn : backoff.remaining using Nat.strongRecOn generalizing backoff m st with
  | ind n ih =>
    rw [awaitMarker]
    refine (always_readMarker_logged m hst).bind ?_ fun _ _ _ h => h
    intro found m' st₁ h
    cases found with
    | some marker => exact h
    | none =>
      dsimp only
      split
      · exact h
      · rename_i duration backoff' hnext
        refine Client.always_pause_bind ?_ fun _ => h
        exact ih _ (hn ▸ Backoff.remaining_lt_of_next? hnext) backoff' m' h rfl

theorem always_checkMarker_logged (m : Memory) (hst : ∀ x ∈ st.2, s.Looks x) :
    s.checkMarker.Always W.logged m st fun r _ st' => s.Found st'.2 r := by
  unfold checkMarker
  refine (always_awaitMarker_logged _ m hst).bind ?_ fun e _ _ h => .inl ⟨h, e, rfl⟩
  intro found m' st₁ h
  rw [Operation.always_bind, always_ofResult]
  cases found with
  | none => exact .inl ⟨h, _, rfl⟩
  | some marker =>
    refine (?_ : s.Found st₁.2 _ → _) (.inr ⟨marker, h, rfl⟩)
    cases Marker.check s.tableName (some marker) <;> exact id

theorem always_bindTo_logged (description : TableDescription) (m : Memory)
    (hst : ∀ x ∈ st.2, s.Looks x) :
    (s.bindTo description).Always W.logged m st fun r _ st' => s.Found st'.2 r := by
  unfold bindTo
  split
  · refine (always_awaitActiveFor_logged (I := s.Looks) (fun _ => .inl rfl) _ m hst).bind ?_
      fun e _ _ h => .inl ⟨h, e, rfl⟩
    exact fun _ m' _ h => always_checkMarker_logged m' h
  · exact .inl ⟨hst, _, rfl⟩
  · exact .inl ⟨hst, _, rfl⟩
  · exact always_checkMarker_logged m hst
  · exact always_checkMarker_logged m hst

/-- A request on the way to a marker that is written at the time `now`. -/
def Prepares (s : Settings) (now : Int64) (x : Exchange) : Prop :=
  x.1 = .describeTable s.tableName ∨ x.1 = .createTable s.tableName {} s.capacity ∨
    ∃ e, x = ⟨.putItem s.tableName (Marker.item Marker.current now), .error e⟩

/-- What a table that is missed is bound to: one that binding may make, with a marker that binding
has written, without a look for another one. -/
def Missed (s : Settings) (now : Int64) (log : List Exchange) (r : Except StoreError Binding) :
    Prop :=
  ((∀ x ∈ log, s.Prepares now x) ∧ ∃ e, r = .error e) ∨
    ∃ front, (∀ x ∈ front, s.Prepares now x) ∧ s.createTable = true ∧
      log = front ++ [⟨.putItem s.tableName (Marker.item Marker.current now), .ok ()⟩] ∧
      r = .ok ⟨true, Marker.current, some now⟩

theorem always_finishTable_logged {now : Int64} (hW : ∀ time, W.shows time → time = now)
    (hcreate : s.createTable = true) (m : Memory) (hst : ∀ x ∈ st.2, s.Prepares now x) :
    s.finishTable.Always W.logged m st fun r _ st' => s.Missed now st'.2 r := by
  refine (always_awaitActiveFor_logged (I := s.Prepares now) (fun _ => .inl rfl) _ m hst).bind ?_
    fun e _ _ h => .inl ⟨h, e, rfl⟩
  intro _ m' st₁ hst₁
  rw [Operation.always_bind, always_perform, Program.always_now]
  intro time htime
  obtain rfl := hW time htime
  refine (Client.always_retry_logged (fun e => .inr (.inr ⟨e, rfl⟩)) m' hst₁).bind ?_
    fun e _ _ h => .inl ⟨h, e, rfl⟩
  rintro _ m'' st₂ ⟨front, hfront, hlog⟩
  exact .inr ⟨front, hfront, hcreate, hlog, rfl⟩

theorem always_makeTable_logged {now : Int64} (hW : ∀ time, W.shows time → time = now)
    (hcreate : s.createTable = true) (m : Memory) (hst : ∀ x ∈ st.2, s.Prepares now x) :
    s.makeTable.Always W.logged m st fun r _ st' => s.Missed now st'.2 r := by
  rw [makeTable_eq, Operation.always_bind, always_perform, Program.always_ask]
  rintro answer ⟨state, _⟩ ⟨-, rfl⟩
  have hst₁ : ∀ x ∈ st.2 ++ [⟨.createTable s.tableName {} s.capacity, answer⟩],
      s.Prepares now x :=
    forall_mem_concat hst (.inr (.inl rfl))
  have hfinish : s.finishTable.Always W.logged m (state, st.2 ++ [⟨_, answer⟩])
      fun r _ st' => s.Missed now st'.2 r := always_finishTable_logged hW hcreate m hst₁
  dsimp only
  split
  · exact hfinish
  · exact hfinish
  · exact .inl ⟨hst₁, _, rfl⟩

/-- What binding exchanges, whatever the answers are: after a first look that finds the table it
reads until it has found a marker, and after any other it makes the table and writes a marker. -/
theorem always_bind_logged {now : Int64} (hW : ∀ time, W.shows time → time = now) (state : τ) :
    s.bind.Always W.logged m (state, []) fun r _ st' =>
      ∃ answer, st'.2.head? = some ⟨.describeTable s.tableName, answer⟩ ∧
        match answer with
        | .ok _ => s.Found st'.2 r
        | .error _ => s.Missed now st'.2 r := by
  unfold bind
  rw [Operation.always_bind, always_perform, Program.always_ask]
  rintro answer ⟨state₁, _⟩ ⟨-, rfl⟩
  cases answer with
  | ok description =>
    have hfirst : ∀ x ∈ [(⟨.describeTable s.tableName, .ok description⟩ : Exchange)], s.Looks x :=
      List.forall_mem_singleton.2 (.inl rfl)
    refine (always_bindTo_logged description m hfirst).leads.imp ?_
    rintro r _ st' ⟨h, more, hlog, -⟩
    exact ⟨.ok description, by rw [hlog]; rfl, h⟩
  | error e =>
    have hfirst : ∀ x ∈ [(⟨.describeTable s.tableName, .error e⟩ : Exchange)], s.Prepares now x :=
      List.forall_mem_singleton.2 (.inl rfl)
    have hend : ∀ e', s.Missed now [⟨.describeTable s.tableName, .error e⟩] (.error e') :=
      fun e' => .inl ⟨hfirst, e', rfl⟩
    dsimp only
    split
    · rename_i heq
      cases heq
    · split
      · rename_i reason heq hcreate
        refine (always_makeTable_logged hW hcreate m hfirst).leads.imp ?_
        rintro r _ st' ⟨h, more, hlog, -⟩
        exact ⟨_, by rw [hlog]; rfl, h⟩
      · exact ⟨_, rfl, hend _⟩
    · exact ⟨_, rfl, hend _⟩

end Settings

/-! ## A table that others may make -/

/-- A table may come from elsewhere while it is missing, with any items. -/
def Appears (st st' : Option Items) : Prop := st ≠ none → st' = st

theorem Appears.refl (st : Option Items) : Appears st st := fun _ => rfl

theorem Appears.trans {st st' st'' : Option Items} (h : Appears st st') (h' : Appears st' st'') :
    Appears st st'' := by
  intro hst
  have heq := h hst
  rw [h' (heq ▸ hst), heq]

/-- The service seen from the items of the table `t`, which others may make at any time, while the
clock shows `time`. Any request may fail for no reason, and then it has no effect. -/
def sharedWorld (t : String) (time : Int64) : World (Option Items) where
  answers r st answer st' := ∃ st₁, Appears st st₁ ∧
    ((tableWorld t time).answers r st₁ answer st' ∨ (∃ e, answer = .error e) ∧ st' = st₁)
  shows now := now = time

section Shared

variable {t : String} {time : Int64} {st st' : Option Items}

/-- A request for the table is served from its items, or it fails, maybe after others have made the
table. -/
theorem exists_served_of_shared {r : Request} {answer : r.Answer} (hr : r.table = t)
    (h : (sharedWorld t time).answers r st answer st') :
    ∃ st₁, Appears st st₁ ∧ (Served r st₁ answer st' ∨ (∃ e, answer = .error e) ∧ st' = st₁) := by
  obtain ⟨st₁, happears, h | h⟩ := h
  · exact ⟨st₁, happears, .inl (served_of_answers hr h)⟩
  · exact ⟨st₁, happears, .inr h⟩

/-- A request that is served without an effect on a table that is there has none when others may
make the table either. -/
theorem appears_of_shared {r : Request} {answer : r.Answer} (hr : r.table = t)
    (hserved : ∀ st, Served r st answer st' → Appears st st')
    (h : (sharedWorld t time).answers r st answer st') : Appears st st' := by
  obtain ⟨st₁, happears, h | ⟨-, rfl⟩⟩ := exists_served_of_shared hr h
  · exact happears.trans (hserved st₁ h)
  · exact happears

theorem appears_describeTable {answer : Except ServiceError TableDescription}
    (h : Served (.describeTable t) st answer st') : Appears st st' := by
  cases answer <;> exact fun _ => h.1

theorem appears_createTable {keySchema : KeySchema} {capacity : Capacity}
    {answer : Except ServiceError TableDescription}
    (h : Served (.createTable t keySchema capacity) st answer st') : Appears st st' := by
  intro hst
  cases answer with
  | ok _ => exact absurd h.1 hst
  | error _ =>
    obtain h | ⟨h, -⟩ := h
    · exact h
    · exact absurd h hst

theorem appears_getItem {key : Key} {answer : Except ServiceError (Option Item)}
    (h : Served (.getItem t key) st answer st') : Appears st st' := by
  cases answer with
  | ok _ => exact fun _ => h.1
  | error _ => exact fun _ => h

theorem appears_putItem_error {item : Item} {e : ServiceError}
    (h : Served (.putItem t item) st (.error e) st') : Appears st st' :=
  fun _ => h

/-- An item that is read is the one of the table. -/
theorem exists_items_of_getItem {key : Key} {found : Option Item}
    (h : (sharedWorld t time).answers (.getItem t key) st (.ok found) st') :
    ∃ items, st' = some items ∧ items.item? key = found := by
  obtain ⟨_, -, ⟨rfl, items, rfl, hfound⟩ | ⟨⟨e, he⟩, -⟩⟩ := exists_served_of_shared rfl h
  · exact ⟨items, rfl, hfound.symm⟩
  · cases he

/-- An item that is stored replaces the one of its key. -/
theorem exists_items_of_putItem {item : Item}
    (h : (sharedWorld t time).answers (.putItem t item) st (.ok ()) st') :
    ∃ items, Appears st (some items) ∧ st' = some (items.apply (.put item)) := by
  obtain ⟨_, happears, ⟨items, rfl, rfl⟩ | ⟨⟨e, he⟩, -⟩⟩ := exists_served_of_shared rfl h
  · exact ⟨items, happears, rfl⟩
  · cases he

end Shared

namespace Settings

variable {s : Settings} {m : Memory} {time : Int64} {st st' : Option Items} {log : List Exchange}
  {r : Except StoreError Binding}

/-- Looks leave a table alone. -/
theorem Looks.appears {x : Exchange} (hx : s.Looks x)
    (h : (sharedWorld s.tableName time).answers x.1 st x.2 st') : Appears st st' := by
  obtain ⟨request, answer⟩ := x
  obtain hrequest | ⟨answer', hx, -⟩ := hx
  · obtain rfl : request = _ := hrequest
    exact appears_of_shared rfl (fun _ => appears_describeTable) h
  · cases hx
    exact appears_of_shared rfl (fun _ => appears_getItem) h

/-- What prepares the marker leaves a table alone. -/
theorem Prepares.appears {now : Int64} {x : Exchange} (hx : s.Prepares now x)
    (h : (sharedWorld s.tableName time).answers x.1 st x.2 st') : Appears st st' := by
  obtain ⟨request, answer⟩ := x
  obtain hrequest | hrequest | ⟨e, hx⟩ := hx
  · obtain rfl : request = _ := hrequest
    exact appears_of_shared rfl (fun _ => appears_describeTable) h
  · obtain rfl : request = _ := hrequest
    exact appears_of_shared rfl (fun _ => appears_createTable) h
  · cases hx
    exact appears_of_shared rfl (fun _ => appears_putItem_error) h

/-- Exchanges that leave a table alone one by one do so together. -/
theorem appears_of_leads (h : (sharedWorld s.tableName time).Leads st log st')
    (hlog : ∀ x ∈ log, ∀ st st', (sharedWorld s.tableName time).answers x.1 st x.2 st' →
      Appears st st') : Appears st st' :=
  h.keeps (P := Appears st) (fun x hx _ _ ha hst => hst.trans (hlog x hx _ _ ha)) (.refl st)

/-- What becomes of a table that binding has found: it stays as it is, and its marker decides as soon
as it is read. -/
structure Checks (s : Settings) (st st' : Option Items) (log : List Exchange)
    (r : Except StoreError Binding) : Prop where
  appears : Appears st st'
  of_ok : ∀ binding, r = .ok binding → ∃ items marker, st' = some items ∧
    items.item? Marker.key = some marker ∧ Marker.version marker = .ok Marker.current ∧
    binding = ⟨false, Marker.current, Marker.createdAt? marker⟩
  incompatible : ∀ items marker v found, st' = some items →
    items.item? Marker.key = some marker → Marker.version marker = .ok v → v ≠ Marker.current →
    ⟨.getItem s.tableName Marker.key, .ok found⟩ ∈ log →
    r = .error (.incompatibleVersion s.tableName Marker.current v)

/-- What becomes of a table that binding has missed: it stays as it is when binding fails, and holds
a marker of this binding when it succeeds, whatever marker it had. -/
def Marks (s : Settings) (time : Int64) (st st' : Option Items) (r : Except StoreError Binding) :
    Prop :=
  (∃ e, r = .error e) ∧ Appears st st' ∨
    s.createTable = true ∧ r = .ok ⟨true, Marker.current, some time⟩ ∧
      ∃ items, Appears st (some items) ∧
        st' = some (items.apply (.put (Marker.item Marker.current time)))

theorem Found.checks (h : s.Found log r) (hleads : (sharedWorld s.tableName time).Leads st log st') :
    s.Checks st st' log r := by
  obtain ⟨hlooks, e, rfl⟩ | ⟨marker, ⟨front, hfront, rfl⟩, rfl⟩ := h
  · refine ⟨appears_of_leads hleads fun x hx _ _ => (hlooks x hx).appears, nofun, ?_⟩
    -- the table had no marker when it was read, and that is how it has stayed
    intro items marker v found hitems hmarker _ _ hread
    obtain ⟨front, back, rfl⟩ := List.append_of_mem hread
    obtain ⟨st₁, -, st₂, ha, hback⟩ := World.leads_append.1 hleads
    obtain ⟨items₂, rfl, hfound⟩ := exists_items_of_getItem ha
    have hstays := appears_of_leads hback fun x hx _ _ =>
      (hlooks x (List.mem_append_right _ (List.mem_cons_of_mem _ hx))).appears
    obtain rfl : items = items₂ := Option.some.inj (hitems.symm.trans (hstays nofun))
    rcases hlooks _ hread with h | ⟨answer, hx, hnone⟩
    · cases h
    · cases hx
      exact absurd (congrArg Except.ok (hfound.symm.trans hmarker)) (hnone marker)
  · obtain ⟨st₁, hleads, _, ha, rfl⟩ := World.leads_append.1 hleads
    have happears := (appears_of_leads hleads fun x hx _ _ => (hfront x hx).appears).trans
      (appears_of_shared rfl (fun _ => appears_getItem) ha)
    obtain ⟨items, hitems, hmarker⟩ := exists_items_of_getItem ha
    refine ⟨happears, ?_, ?_⟩
    · intro binding hok
      cases hcheck : Marker.check s.tableName (some marker) with
      | error e =>
        rw [hcheck] at hok
        cases hok
      | ok v =>
        rw [hcheck] at hok
        obtain ⟨hversion, rfl⟩ := Marker.version_of_check hcheck
        cases hok
        exact ⟨items, marker, hitems, hmarker, hversion, rfl⟩
    · intro items' marker' v _ hitems' hmarker' hversion hv _
      obtain rfl : items' = items := Option.some.inj (hitems'.symm.trans hitems)
      obtain rfl : marker' = marker := Option.some.inj (hmarker'.symm.trans hmarker)
      rw [Marker.check_of_version hversion, if_neg hv]
      rfl

theorem Missed.marks (h : s.Missed time log r)
    (hleads : (sharedWorld s.tableName time).Leads st log st') : s.Marks time st st' r := by
  obtain ⟨hprepares, herror⟩ | ⟨front, hfront, hcreate, rfl, rfl⟩ := h
  · exact .inl ⟨herror, appears_of_leads hleads fun x hx _ _ => (hprepares x hx).appears⟩
  · obtain ⟨st₁, hleads, _, ha, rfl⟩ := World.leads_append.1 hleads
    have happears := appears_of_leads hleads fun x hx _ _ => (hfront x hx).appears
    obtain ⟨items, hitems, hput⟩ := exists_items_of_putItem ha
    exact .inr ⟨hcreate, rfl, items, happears.trans hitems, hput⟩

/-- **Binding and the version marker.** Others may make the table at any time, and any request may
fail. If the first look finds the table, binding writes nothing, it succeeds only with a current
marker in the table, and a marker of another version that is read makes it fail. After any other
first look binding leaves a table that is there alone unless it succeeds, and then its own marker is
in the table. It has not looked for another one, so one that was there is lost. -/
theorem always_bind_shared :
    s.bind.Always (sharedWorld s.tableName time).logged m (st, []) fun r _ last =>
      ∃ answer, last.2.head? = some ⟨.describeTable s.tableName, answer⟩ ∧
        match answer with
        | .ok _ => s.Checks st last.1 last.2 r
        | .error _ => s.Marks time st last.1 r := by
  refine (always_bind_logged (fun _ h => h) st).leads.imp ?_
  rintro r _ ⟨st', log⟩ ⟨⟨answer, hhead, h⟩, more, hlog, hleads⟩
  obtain rfl : log = more := hlog
  refine ⟨answer, hhead, ?_⟩
  cases answer with
  | ok _ => exact h.checks hleads
  | error _ => exact h.marks hleads

end Settings

/-! ## A service behind a script -/

namespace Scripted

/-- A scripted answer is a failure without effect, and any other comes from the backend. -/
theorem answer_cases {σ : Type} (b : Backend σ) (r : Request) (s : Scripted σ) :
    ((∃ e, ((backend b).answer r s).1 = .error e) ∧ ((backend b).answer r s).2.inner = s.inner) ∨
      ((backend b).answer r s).1 = (b.answer r s.inner).1 ∧
        ((backend b).answer r s).2.inner = (b.answer r s.inner).2 := by
  have hinner : (s.take r.name).2.inner = s.inner := by
    unfold take
    split <;> rfl
  unfold backend
  dsimp only
  split
  · rename_i e s' h
    rw [h] at hinner
    exact .inl ⟨⟨e, rfl⟩, hinner⟩
  · rename_i s' h
    rw [h] at hinner
    dsimp only at hinner ⊢
    rw [hinner]
    exact .inr ⟨rfl, rfl⟩

/-- The simulated service behind a script stays within the shared world of each of its tables, as
long as nobody else is going to write. -/
theorem within_sharedWorld (t : String) (time : Int64) :
    (backend Service.backend).Within (sharedWorld t time) (·.inner.items? t) (·.inner.IsCalm) where
  answers r s hs := by
    refine ⟨s.inner.items? t, .refl _, ?_⟩
    obtain ⟨herror, hinner⟩ | ⟨hanswer, hinner⟩ := answer_cases Service.backend r s
    · exact .inr ⟨herror, congrArg (·.items? t) hinner⟩
    · rw [hanswer, hinner]
      exact .inl ((Service.within_tableWorld t time).answers r s.inner hs)
  keeps r s hs := by
    obtain ⟨-, hinner⟩ | ⟨-, hinner⟩ := answer_cases Service.backend r s
    · exact hinner ▸ hs
    · exact hinner ▸ (Service.within_tableWorld t time).keeps r s.inner hs

end Scripted

/-! ## A sample -/

namespace Sample

/-- A service on which somebody else has just made the table, for another version. The first look
misses it. -/
def outpaced : Host (Scripted Service) where
  state := (Scripted.mk ((host.state.createActiveTable store.table ⟨5, 5⟩).putRaw store.table
    (Marker.item 99 1234)) ∅).add "describe_table" [some (.resourceNotFound "not yet visible")]
  now := 5

/-- The store binds to the table and replaces the marker that is there. -/
theorem prepare_outpaced :
    outpaced.state.inner.getRaw store.table Marker.key = some (Marker.item 99 1234) ∧
      (store.prepare.run (Scripted.backend Service.backend) {} outpaced).outcome = .ok () ∧
      (store.prepare.run (Scripted.backend Service.backend) {} outpaced).host.state.inner.getRaw
        store.table Marker.key = some (Marker.item Marker.current 5) := by
  decide +kernel

end Sample

end TableTree
