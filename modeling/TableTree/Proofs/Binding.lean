import TableTree.Proofs.Commit

/-!
# What binding leaves

Binding reads a table that is there and never writes to it. A table that binding makes itself holds
the version marker and nothing else.

Results:

* `World.HasTable`, `Store.always_bound_of_hasTable`: using a table that is there only reads.
* `Store.always_bound`: it leaves the items alone.
* `Store.always_prepare_missing`: a table made at the first use holds the marker only.
-/

namespace TableTree

open Operation

variable {t : String} {time : Int64} {st : Option Items}

namespace Client

variable {c : Client} {operation target : String} {m : Memory}

/-- One attempt to read from the table. -/
theorem always_ask_reads {r : Request} {f : Items → r.Reply} (hr : r.table = t)
    (hread : ∀ answer st', Served r st answer st' → Reads st f answer st') :
    (Program.ask r).Always (tableWorld t time) st (Reads st f) := by
  rw [Program.always_ask]
  exact fun answer st' h => hread answer st' (served_of_answers hr h)

/-- What is read under the policy is read from the items as they are. -/
theorem always_retry_reads {idempotent : Bool} {r : Request} {f : Items → r.Reply}
    (hr : r.table = t) (hread : ∀ answer st', Served r st answer st' → Reads st f answer st') :
    (c.retry operation target idempotent (.ask r)).Always (tableWorld t time) m st
      fun answer _ st' => Reads st f answer st' := by
  refine always_retry ?_ m rfl
  rintro _ rfl
  exact always_ask_reads hr hread

end Client

namespace Settings

variable {s : Settings} {m : Memory}

/-! ### Waiting for a table -/

section Looks

variable {σ : Type} {W : World σ} {I D : σ → Prop}

/-- Looks at a table that leave `I` when they fail, and `D` when they succeed. -/
theorem always_describe
    (h : ∀ st, I st → (Program.ask (.describeTable s.tableName)).Always W st
      fun r st' => EndsIn (fun _ => D) I r st') {st : σ} (hst : I st) :
    s.describe.Always W m st fun r _ st' => EndsIn (fun _ => D) I r st' :=
  Client.always_retry h m hst

/-- Waiting for a table looks at it and no more. -/
theorem always_awaitActiveFor
    (h : ∀ st, I st → (Program.ask (.describeTable s.tableName)).Always W st
      fun r st' => EndsIn (fun _ => D) I r st')
    (hD : ∀ st, D st → I st) (looks : Nat) (m : Memory) {st : σ} (hst : I st) :
    (s.awaitActiveFor looks).Always W m st fun r _ st' => EndsIn (fun _ => D) I r st' := by
  induction looks generalizing m st with
  | zero => exact hst
  | succ looks ih =>
    rw [awaitActiveFor]
    refine (always_describe h hst).bind ?_ fun _ _ _ h => h
    intro description m' st' hst'
    split
    · exact hst'
    · exact hD st' hst'
    · exact Client.always_pause_bind (ih m' (hD st' hst')) fun _ => hD st' hst'

end Looks

/-- Waiting for a table ends well only if it is there. -/
theorem always_awaitActive :
    s.awaitActive.Always (tableWorld s.tableName time) m st fun r _ st' =>
      EndsIn (fun _ st' => st' = st ∧ st ≠ none) (· = st) r st' := by
  refine always_awaitActiveFor (I := (· = st)) ?_ (fun _ h => h.1) _ m rfl
  rintro _ rfl
  rw [Program.always_ask]
  intro answer st' h
  replace h := served_of_answers (r := .describeTable s.tableName) rfl h
  cases answer with
  | ok description => exact h
  | error e => exact h.1

end Settings

/-! ### A table that is there -/

/-- A condition on the states of a world under which the table `t` is there, and which looks at the
table and reads from it keep up. -/
structure World.HasTable {σ : Type} (W : World σ) (t : String) (D : σ → Prop) : Prop where
  describe : ∀ st, D st → (Program.ask (.describeTable t)).Always W st fun answer st' =>
    D st' ∧ ∃ description, answer = .ok description
  read : ∀ st key, D st → (Program.ask (.getItem t key)).Always W st fun _ st' => D st'

/-- A table that is there keeps its items. -/
theorem hasTable_tableWorld (t : String) (time : Int64) (items : Items) :
    (tableWorld t time).HasTable t (· = some items) where
  describe := by
    rintro _ rfl
    rw [Program.always_ask]
    intro answer st' h
    replace h := served_of_answers (r := .describeTable t) rfl h
    cases answer with
    | ok description => exact ⟨h.1, description, rfl⟩
    | error e => cases h.2
  read := by
    rintro _ key rfl
    refine (Client.always_ask_reads (r := .getItem t key) rfl fun _ _ h => h).imp ?_
    intro answer st' h
    cases answer with
    | ok found => exact h.1
    | error e => exact h

section HasTable

variable {σ : Type} {W : World σ} {D : σ → Prop} {m : Memory}

namespace Settings

variable {s : Settings}

theorem always_readMarker (h : W.HasTable s.tableName D) {st : σ} (hst : D st) :
    s.readMarker.Always W m st fun _ _ st' => D st' := by
  refine (Client.always_retry (Q := fun _ => D) (I := D) ?_ m hst).imp ?_
  · intro st₁ hst₁
    refine (h.read st₁ Marker.key hst₁).imp ?_
    intro answer st₂ hst₂
    cases answer <;> exact hst₂
  · intro r m' st' hr
    cases r <;> exact hr

theorem always_awaitMarker (h : W.HasTable s.tableName D) (backoff : Backoff) (m : Memory) {st : σ}
    (hst : D st) : (s.awaitMarker backoff).Always W m st fun _ _ st' => D st' := by
  -- on the waits that are left
  induction hn : backoff.remaining using Nat.strongRecOn generalizing backoff m st with
  | ind n ih =>
    rw [awaitMarker]
    refine (always_readMarker h hst).bind ?_ fun _ _ _ h => h
    intro marker m' st' hst'
    split
    · exact hst'
    · split
      · exact hst'
      · rename_i duration backoff' hnext
        refine Client.always_pause_bind ?_ fun _ => hst'
        exact ih _ (hn ▸ Backoff.remaining_lt_of_next? hnext) backoff' m' hst' rfl

theorem always_checkMarker (h : W.HasTable s.tableName D) {st : σ} (hst : D st) :
    s.checkMarker.Always W m st fun _ _ st' => D st' := by
  unfold checkMarker
  refine (always_awaitMarker h _ m hst).bind ?_ fun _ _ _ h => h
  intro marker m' st' hst'
  rw [Operation.always_bind, always_ofResult]
  cases Marker.check s.tableName marker <;> exact hst'

theorem always_bindTo (h : W.HasTable s.tableName D) (description : TableDescription) {st : σ}
    (hst : D st) : (s.bindTo description).Always W m st fun _ _ st' => D st' := by
  have hlooks : ∀ st, D st → (Program.ask (.describeTable s.tableName)).Always W st
      fun r st' => EndsIn (fun _ => D) D r st' := by
    intro st₁ hst₁
    refine (h.describe st₁ hst₁).imp ?_
    rintro _ st₂ ⟨hst₂, description, rfl⟩
    exact hst₂
  unfold bindTo
  split
  · refine (always_awaitActiveFor hlooks (fun _ => id) _ m hst).bind ?_ fun _ _ _ h => h
    exact fun _ m' st' hst' => always_checkMarker h hst'
  · exact hst
  · exact hst
  · exact always_checkMarker h hst
  · exact always_checkMarker h hst

/-- Binding to a table that is there only looks at it and reads from it. -/
theorem always_bind (h : W.HasTable s.tableName D) {st : σ} (hst : D st) :
    s.bind.Always W m st fun _ _ st' => D st' := by
  unfold bind
  rw [Operation.always_bind, always_perform]
  refine (h.describe st hst).imp ?_
  rintro _ st' ⟨hst', description, rfl⟩
  exact always_bindTo h description hst'

end Settings

namespace Store

variable {s : Store}

/-- Using a table that is there only looks at it and reads from it, until the store is bound. -/
theorem always_bound_of_hasTable (h : W.HasTable s.table D) {st : σ} (hst : D st) :
    s.bound.Always W m st fun _ _ st' => D st' := by
  unfold bound
  rw [always_bind, always_get]
  dsimp only
  split
  · exact hst
  · split
    · exact hst
    · exact (Settings.always_bind h hst).bind (fun _ _ _ h => h) fun _ _ _ h => h

end Store

end HasTable

/-! ## A table that is missing -/

namespace Settings

variable {s : Settings} {m : Memory}

/-- The items of a table that was just made. -/
def madeItems (createdAt : Int64) : Items := .apply ∅ (.put (Marker.item Marker.current createdAt))

/-- What binding does with a table that it has made, or somebody else in the meantime: it waits for
the table and writes the version marker. -/
def finishTable (s : Settings) : Operation Binding := do
  s.awaitActive
  let createdAt ← perform .now
  s.client.retry "putVersionMarker" s.tableName true
    (.ask (.putItem s.tableName (Marker.item Marker.current createdAt)))
  pure ⟨true, Marker.current, some createdAt⟩

theorem makeTable_eq (s : Settings) :
    s.makeTable = perform (.ask (.createTable s.tableName {} s.capacity)) >>= fun
      | .ok _ | .error (.resourceInUse _) => s.finishTable
      | .error e => throw (.backend (s.client.site "createTable" s.tableName) e) := by
  unfold makeTable
  congr 1

/-- A table without items holds the marker only once it is finished, and otherwise stays as it is. -/
theorem always_finishTable (hst : st ≠ none → st = some ∅) :
    s.finishTable.Always (tableWorld s.tableName time) m st fun r _ st' =>
      EndsIn (fun _ st' => ∃ createdAt, st' = some (madeItems createdAt)) (· = st) r st' := by
  refine always_awaitActive.bind ?_ fun _ _ _ h => h
  rintro _ m' _ ⟨rfl, hne⟩
  obtain rfl := hst hne
  rw [Operation.always_bind, always_perform, Program.always_now]
  intro createdAt _
  refine (Client.always_retry (Q := fun _ st => st = some (madeItems createdAt)) (I := (· = some ∅))
    ?_ m' rfl).bind ?_ fun _ _ _ h => h
  · rintro _ rfl
    rw [Program.always_ask]
    intro answer st' h
    replace h := served_of_answers
      (r := .putItem s.tableName (Marker.item Marker.current createdAt)) rfl h
    cases answer with
    | ok _ =>
      obtain ⟨_, hitems, hst'⟩ := h
      cases hitems
      exact hst'
    | error e => exact h
  · rintro _ m'' _ rfl
    exact ⟨createdAt, rfl⟩

/-- A table that is made holds the marker only. -/
theorem always_makeTable :
    s.makeTable.Always (tableWorld s.tableName time) m none fun r _ st' =>
      EndsIn (fun _ st' => ∃ createdAt, st' = some (madeItems createdAt)) (fun _ => True)
        r st' := by
  rw [makeTable_eq, Operation.always_bind, always_perform, Program.always_ask]
  intro answer st h
  replace h := served_of_answers (r := .createTable s.tableName {} s.capacity) rfl h
  have hst : st ≠ none → st = some ∅ := by
    cases answer with
    | ok description => exact fun _ => h.2
    | error e =>
      rcases h with rfl | ⟨-, rfl⟩
      · exact fun h => absurd rfl h
      · exact fun _ => rfl
  have hfinish : s.finishTable.Always (tableWorld s.tableName time) m st fun r _ st' =>
      EndsIn (fun _ st' => ∃ createdAt, st' = some (madeItems createdAt)) (fun _ => True) r st' :=
    (always_finishTable hst).imp fun r _ st' h => by
      cases r with
      | ok _ => exact h
      | error e => trivial
  dsimp only
  split
  · exact hfinish
  · exact hfinish
  · exact trivial

/-- Binding to a table that is missing makes it, or fails. -/
theorem always_bind_missing :
    s.bind.Always (tableWorld s.tableName time) m none fun r _ st' =>
      EndsIn (fun _ st' => ∃ createdAt, st' = some (madeItems createdAt)) (fun _ => True)
        r st' := by
  unfold bind
  rw [Operation.always_bind, always_perform, Program.always_ask]
  intro answer st' h
  replace h := served_of_answers (r := .describeTable s.tableName) rfl h
  cases answer with
  | ok description => exact absurd rfl h.2
  | error e =>
    rw [h.1]
    dsimp only
    split
    · rename_i heq
      cases heq
    · split
      · exact always_makeTable
      · exact trivial
    · exact trivial

end Settings

namespace Store

variable {s : Store} {m : Memory}

/-- Using a table that is there leaves its items alone. -/
theorem always_bound (items : Items) :
    s.bound.Always (tableWorld s.table time) m (some items) fun _ _ st' => st' = some items :=
  always_bound_of_hasTable (hasTable_tableWorld s.table time items) rfl

/-- An operation of a store starts from the items as they are, or it fails before it has begun. -/
theorem always_bound_bind {α : Type} {items : Items} {f : Binding → Operation α}
    {Q : α → Option Items → Prop} {I : Option Items → Prop} (hI : I (some items))
    (hf : ∀ binding m', (f binding).Always (tableWorld s.table time) m' (some items) fun r _ st =>
      EndsIn Q I r st) :
    (s.bound >>= f).Always (tableWorld s.table time) m (some items) fun r _ st =>
      EndsIn Q I r st := by
  refine (always_bound items).bind ?_ ?_
  · rintro binding m' _ rfl
    exact hf binding m'
  · rintro e _ _ rfl
    exact hI

/-- A store that is bound goes on with what follows. -/
theorem always_bound_bind_of_isBound {σ α : Type} {W : World σ} {st : σ} (hm : isBound m = true)
    {f : Binding → Operation α} {Q : Except StoreError α → Memory → σ → Prop}
    (hf : ∀ binding, (f binding).Always W m st Q) : (s.bound >>= f).Always W m st Q := by
  obtain ⟨hbinding, hdestroyed⟩ := Bool.and_eq_true_iff.1 hm
  obtain ⟨binding, hbinding⟩ := Option.isSome_iff_exists.1 hbinding
  rw [always_bind, bound, always_bind, always_get]
  dsimp only
  rw [if_neg (by simpa using hdestroyed), hbinding]
  exact hf binding

/-- A table that the first use has made holds the marker only. -/
theorem always_prepare_missing :
    s.prepare.Always (tableWorld s.table time) {} none fun r _ st' =>
      EndsIn (fun _ st' => ∃ createdAt, st' = some (Settings.madeItems createdAt))
        (fun _ => True) r st' := by
  unfold prepare bound
  rw [always_bind, always_bind, always_get]
  exact Settings.always_bind_missing.bind (fun _ _ _ h => h) fun _ _ _ h => h

end Store

end TableTree
