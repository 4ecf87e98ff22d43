import TableTree.Proofs.Buckets.Uses
import TableTree.Proofs.SubtreeEffect

/-!
# Buckets are isolated

A store is used for paths of one bucket on two services that agree on the items of the bucket and on
what is to go wrong, whatever else their tables hold. Everything that is exchanged is about items of
the bucket, so both uses give the same, the services agree again, and nothing outside the bucket has
changed on either.

Results:

* `Program.run_keeps`, `Program.run_alike`: what the exchanges of a run keep, and a second run in
  which they are answered alike.
* `Use.run`, `Use.run_perform_of_le`: further visits than a deletion of a subtree needs do not show.
* `Use.isolated_run`: buckets are isolated.
-/

namespace TableTree

open Operation

variable {σ α β : Type}

/-! ## Runs from their exchanges -/

section Runs

variable {b : Backend σ} {h : Host σ}

@[simp] theorem Host.state_sleep (h : Host σ) (d : Duration) : (h.sleep d).2.state = h.state := by
  obtain ⟨t, ties, ht⟩ := h.exists_sleep_eq d
  rw [ht]

theorem Host.sleep_setState (h : Host σ) (s : σ) (d : Duration) :
    ({ h with state := s } : Host σ).sleep d =
      ((h.sleep d).1, { (h.sleep d).2 with state := s }) :=
  h.sleep_mapState (fun _ => s) d

/-- What is kept by every exchange of a run is kept by the run. -/
theorem Program.run_keeps {I : σ → Prop} {p : Program α}
    (hkeep : ∀ x ∈ p.exchanges b h, ∀ s, I s → I (b.answer x.1 s).2) (hI : I h.state) :
    I (p.run b h).2.state := by
  induction p generalizing h with
  | done a => exact hI
  | send r next ih =>
    rw [exchanges, List.forall_mem_cons] at hkeep
    exact ih _ hkeep.2 (hkeep.1 h.state hI)
  | wait d next ih =>
    have hI' : I (h.sleep d).2.state := by rwa [h.state_sleep]
    exact ih (h.sleep d).1 hkeep hI'
  | clock next ih => exact ih h.now hkeep hI
  | tell n next ih => exact ih (h := { h with notices := h.notices ++ [n] }) hkeep hI

/-- A second run, from a state related to the first. If each exchange of the first run is answered
alike in related states, which are related again after it, the second run gives the same and
exchanges the same, and ends in a related state. -/
theorem Program.run_alike {R : σ → σ → Prop} {p : Program α} {s' : σ}
    (halike : ∀ x ∈ p.exchanges b h, ∀ s s', R s s' →
      (b.answer x.1 s').1 = (b.answer x.1 s).1 ∧ R (b.answer x.1 s).2 (b.answer x.1 s').2)
    (hR : R h.state s') :
    ∃ t, R (p.run b h).2.state t ∧
      p.run b { h with state := s' } = ((p.run b h).1, { (p.run b h).2 with state := t }) ∧
      p.exchanges b { h with state := s' } = p.exchanges b h := by
  induction p generalizing h s' with
  | done a => exact ⟨s', hR, rfl, rfl⟩
  | send r next ih =>
    rw [exchanges, List.forall_mem_cons] at halike
    have hanswer : (b.answer r s').1 = (b.answer r h.state).1 := (halike.1 h.state s' hR).1
    obtain ⟨t, ht, hrun, hexchanges⟩ := ih _ halike.2 (halike.1 h.state s' hR).2
    refine ⟨t, ht, ?_, ?_⟩
    · show (next (b.answer r s').1).run b _ = _
      rw [hanswer]
      exact hrun
    · show (⟨r, (b.answer r s').1⟩ : Exchange) :: (next (b.answer r s').1).exchanges b _ = _
      rw [hanswer]
      exact congrArg _ hexchanges
  | wait d next ih =>
    have hR' : R (h.sleep d).2.state s' := by rwa [h.state_sleep]
    obtain ⟨t, ht, hrun, hexchanges⟩ := ih (h.sleep d).1 halike hR'
    refine ⟨t, ht, ?_, ?_⟩
    · rw [run, h.sleep_setState]
      exact hrun
    · rw [exchanges, h.sleep_setState]
      exact hexchanges
  | clock next ih => exact ih h.now halike hR
  | tell n next ih => exact ih (h := { h with notices := h.notices ++ [n] }) halike hR

theorem Operation.run_keeps {I : σ → Prop} {x : Operation α} {m : Memory}
    (hkeep : ∀ e ∈ x.exchanges b m h, ∀ s, I s → I (b.answer e.1 s).2) (hI : I h.state) :
    I (x.run b m h).host.state :=
  Program.run_keeps hkeep hI

theorem Operation.run_alike {R : σ → σ → Prop} {x : Operation α} {m : Memory} {s' : σ}
    (halike : ∀ e ∈ x.exchanges b m h, ∀ s s', R s s' →
      (b.answer e.1 s').1 = (b.answer e.1 s).1 ∧ R (b.answer e.1 s).2 (b.answer e.1 s').2)
    (hR : R h.state s') :
    ∃ t, R (x.run b m h).host.state t ∧
      x.run b m { h with state := s' } =
        ⟨(x.run b m h).outcome, (x.run b m h).memory, { (x.run b m h).host with state := t }⟩ ∧
      x.exchanges b m { h with state := s' } = x.exchanges b m h := by
  obtain ⟨t, ht, hrun, hexchanges⟩ := Program.run_alike halike hR
  refine ⟨t, ht, ?_, hexchanges⟩
  unfold Operation.run
  rw [hrun]

/-- Two operations after the same one, which run alike from wherever it may end. -/
theorem Operation.run_bind_congr {x : Operation α} {f g : α → Operation β} {m : Memory}
    (hfg : ∀ a m₁ h₁, x.run b m h = ⟨.ok a, m₁, h₁⟩ → (f a).run b m₁ h₁ = (g a).run b m₁ h₁) :
    (x >>= f).run b m h = (x >>= g).run b m h := by
  rw [run_bind, run_bind]
  rcases hx : x.run b m h with ⟨e | a, m₁, h₁⟩
  · rfl
  · exact hfg a m₁ h₁ hx

end Runs

/-! ## As many visits as it needs -/

section Visits

variable {b : Backend σ} {h : Host σ} {s : Store} {m : Memory}

/-- If one operation after another does not give `c`, and the second gives `c` whenever it is given
`a`, the first does not give `a`. -/
theorem Operation.outcome_ne_of_run_bind {x : Operation α} {f : α → Operation β} {a : α} {c : β}
    (hf : ∀ m h, ((f a).run b m h).outcome = .ok c)
    (hne : ((x >>= f).run b m h).outcome ≠ .ok c) : (x.run b m h).outcome ≠ .ok a := by
  intro ha
  refine hne ?_
  rcases hx : x.run b m h with ⟨r, m₁, h₁⟩
  rw [hx] at ha
  obtain rfl : r = .ok a := ha
  rw [run_bind_of_ok hx]
  exact hf m₁ h₁

/-- One more visit does not show in a walk that is over. -/
theorem Walk.run_collect?_succ (visits : Nat) (w : Walk)
    (hover : ((w.collect? s visits).run b m h).outcome ≠ .ok none) :
    (w.collect? s (visits + 1)).run b m h = (w.collect? s visits).run b m h := by
  induction visits generalizing w m h with
  | zero =>
    obtain ⟨_ | ⟨e, queue⟩⟩ := w
    · rfl
    · exact absurd rfl hover
  | succ visits ih =>
    obtain ⟨_ | ⟨e, queue⟩⟩ := w
    · rw [collect?_nil, collect?_nil]
    · rw [collect?_cons] at hover ⊢
      rw [collect?_cons]
      refine run_bind_congr fun l m₁ h₁ hl => ?_
      rw [run_bind_of_ok hl] at hover
      have hrest := ih _ (outcome_ne_of_run_bind (fun _ _ => rfl) hover)
      rw [run_bind, run_bind, hrest]

/-- Further visits do not show in a deletion of a subtree that has been able to make all it needs. -/
theorem Store.run_deleteSubtree?_of_le {path : Path} {visits visits' : Nat}
    (hover : ((s.deleteSubtree? visits path).run b m h).outcome ≠ .ok none)
    (hle : visits ≤ visits') :
    (s.deleteSubtree? visits' path).run b m h = (s.deleteSubtree? visits path).run b m h := by
  induction visits', hle using Nat.le_induction with
  | base => rfl
  | succ visits' hle ih =>
    rw [← ih]
    rw [← ih] at hover
    unfold deleteSubtree? at hover ⊢
    refine run_bind_congr fun _ m₁ h₁ hbound => ?_
    rw [run_bind_of_ok hbound] at hover
    refine run_bind_congr fun e m₂ h₂ hget => ?_
    rw [run_bind_of_ok hget] at hover
    split
    · rfl
    · rename_i root hroot
      rw [hroot] at hover
      have hwalk := Walk.run_collect?_succ visits' (.start root)
        (outcome_ne_of_run_bind (fun _ _ => rfl) hover)
      rw [run_bind, run_bind, hwalk]

end Visits

/-- A use of a store on a host. A deletion of a subtree takes as many visits as it needs. -/
def Use.run (s : Store) (m : Memory) (h : Host Service) (u : Use) : Operation.Run Service u.Result :=
  (u.perform s (h.state.walkBound s.table)).run Service.backend m h

/-- Further visits than that do not show. -/
theorem Use.run_perform_of_le {s : Store} {m : Memory} {h : Host Service} {items : Items}
    (u : Use) (hcalm : h.state.IsCalm) (hitems : h.state.items? s.table = some items)
    {visits : Nat} (hvisits : h.state.walkBound s.table ≤ visits) :
    (u.perform s visits).run Service.backend m h = u.run s m h := by
  cases u with
  | deleteSubtree path =>
    obtain ⟨-, -, -, hover⟩ := s.commits_deleteSubtree? (m := m) path hcalm hitems (Nat.le_refl _)
    exact s.run_deleteSubtree?_of_le hover hvisits
  | _ => rfl

/-! ## Isolation -/

/-- **Buckets are isolated.** A bound store is used for paths of a bucket, on two services that agree
on the items of the bucket in its table, on the failures that are to come and on the calls made so far.
Both uses give the same, leave the store with the same memory and the host with the same waits and
notices behind it, and the services agree again. Neither use changes any item but those of the bucket
in the table. -/
theorem Use.isolated_run (s : Store) (m : Memory) (h : Host Service) (s' : Service) (b : Bucket)
    (u : Use) (hm : Store.isBound m = true) (hagree : h.state.AgreeIn s.table b s')
    (hu : u.IsIn b) :
    let run := u.run s m h
    let run' := u.run s m { h with state := s' }
    run'.outcome = run.outcome ∧ run'.memory = run.memory ∧
      run'.host = { run.host with state := run'.host.state } ∧
      run.host.state.AgreeIn s.table b run'.host.state ∧
      h.state.SameOutside s.table b run.host.state ∧ s'.SameOutside s.table b run'.host.state := by
  intro run run'
  obtain ⟨items, items', hitems, hitems', -⟩ := hagree.items
  -- both runs may take the same number of visits
  let visits := max (h.state.walkBound s.table) (s'.walkBound s.table)
  let x := u.perform s visits
  have hrun : run = x.run Service.backend m h :=
    (u.run_perform_of_le hagree.isCalm hitems (Nat.le_max_left ..)).symm
  have hrun' : run' = x.run Service.backend m { h with state := s' } :=
    (u.run_perform_of_le (h := { h with state := s' }) hagree.isCalm' hitems'
      (Nat.le_max_right ..)).symm
  have hlogged : LoggedIn s.table b (x.exchanges Service.backend m h) :=
    (Use.confined_perform hm visits hu).exchanges hagree.isCalm
  obtain ⟨t, ht, heq, hexchanges⟩ := x.run_alike
    (fun e he _ _ hs => hs.answer (hlogged e he)) hagree
  have hkeep (k : Service) : ∀ e ∈ x.exchanges Service.backend m h, ∀ s₁ : Service,
      s₁.IsCalm ∧ k.SameOutside s.table b s₁ →
        (s₁.answer e.1).2.IsCalm ∧ k.SameOutside s.table b (s₁.answer e.1).2 := by
    rintro e he s₁ ⟨hcalm, hsame⟩
    exact ⟨(Service.fits_answer (t := s.table) hcalm e.1).2,
      hsame.trans (Service.sameOutside_answer (hlogged e he) hcalm)⟩
  have hsame : h.state.SameOutside s.table b run.host.state := by
    rw [hrun]
    exact (x.run_keeps (hkeep h.state) ⟨hagree.isCalm, .refl s.table b _⟩).2
  have hsame' : s'.SameOutside s.table b run'.host.state := by
    rw [hrun']
    exact (x.run_keeps (h := { h with state := s' }) (hexchanges ▸ hkeep s')
      ⟨hagree.isCalm', .refl s.table b _⟩).2
  rw [← hrun, ← hrun'] at heq
  rw [← hrun] at ht
  rw [heq] at hsame' ⊢
  exact ⟨rfl, rfl, rfl, ht, hsame, hsame'⟩

/-! ## A sample -/

namespace Sample

/-- A service whose table holds a file and the directory above it. -/
def bucketHost : Host Service :=
  ((store.put (.file file 1 2 3 "o")).run Service.backend stage.memory stage.host).host

/-- An item of another bucket, whose name begins with the name of the first, at the same place below
it. -/
def neighbour : Item := Item.bare ⟨"/bb/d", "f"⟩

/-- The same service with that item. -/
def sharedState : Service := bucketHost.state.putRaw store.table neighbour

/-- The directory is deleted with all below it, with the neighbour and without it. -/
theorem isolated_run_neighbour :
    Store.isBound stage.memory = true ∧
      bucketHost.state.AgreeIn store.table directory.bucket sharedState ∧
      (Use.deleteSubtree directory).IsIn directory.bucket ∧
      ((Use.deleteSubtree directory).run store stage.memory bucketHost).outcome = .ok (some ()) ∧
      ((Use.deleteSubtree directory).run store stage.memory
        { bucketHost with state := sharedState }).outcome = .ok (some ()) ∧
      ((Use.deleteSubtree directory).run store stage.memory
        { bucketHost with state := sharedState }).host.state.getRaw store.table neighbour.key =
          some neighbour := by
  have hbound : Store.isBound stage.memory = true := by decide +kernel
  have hcalm : bucketHost.state.IsCalm := List.isEmpty_iff.1 (by decide +kernel)
  have hbucket : (⟨"bb", by decide⟩ : Bucket) ≠ directory.bucket := by decide
  have hneighbour : ¬ neighbour.key.IsIn directory.bucket :=
    Bucket.not_isIn_of_ne (.inr (by decide)) hbucket
  have hsome : (bucketHost.state.items? store.table).isSome = true := by decide +kernel
  obtain ⟨items, hitems⟩ := Option.isSome_iff_exists.1 hsome
  have hagree : bucketHost.state.AgreeIn store.table directory.bucket sharedState :=
    Service.agreeIn_putRaw hcalm hitems hneighbour
  have hheld : sharedState.getRaw store.table neighbour.key = some neighbour := by
    rw [Service.getRaw, sharedState, Service.putRaw, Service.items?_mapItems, if_pos rfl, hitems]
    exact (Items.item?_apply items (.put neighbour) neighbour.key).trans (if_pos rfl)
  have hok : ((Use.deleteSubtree directory).run store stage.memory bucketHost).outcome =
      .ok (some ()) := by decide +kernel
  obtain ⟨heq, -, -, -, -, hsame⟩ := Use.isolated_run store stage.memory bucketHost sharedState
    directory.bucket (.deleteSubtree directory) hbound hagree rfl
  exact ⟨hbound, hagree, rfl, hok, heq.trans hok,
    (hsame store.table neighbour.key fun h => hneighbour h.2).trans hheld⟩

end Sample

end TableTree
