import TableTree.Proofs.Composed

/-!
# The count of throttled requests does not matter

How often a store was throttled shows in its diagnostics and in whether a warning that a table has too
little capacity is still logged, and in nothing else. So two runs of an operation that start with
different counts, and otherwise alike, come to the same.

Results:

* `Host.Similar`: hosts that are alike but for such warnings.
* `Operation.RunsAlike`, `Operation.Indifferent`: operations for which the count does not matter.
* `Operation.Composed.indifferent`: what is composed of steps is such an operation.
* `Action.alike_perform`: all that a store is asked for.
-/

namespace TableTree

open Operation

variable {σ α β : Type}

/-! ## Hosts -/

/-- Whether a notice is the warning that a table has too little capacity. -/
def Notice.isCapacityWarning : Notice → Bool
  | .limitsReached .. => true
  | _ => false

/-- Hosts that are the same but for warnings that a table has too little capacity. -/
structure Host.Similar (h h' : Host σ) : Prop where
  state_eq : h'.state = h.state
  now_eq : h'.now = h.now
  elapsed_eq : h'.elapsed = h.elapsed
  closesAt_eq : h'.closesAt = h.closesAt
  timer_eq : h'.timer = h.timer
  ties_eq : h'.ties = h.ties
  notices_eq : (h'.notices.filter fun n => !n.isCapacityWarning) =
    h.notices.filter fun n => !n.isCapacityWarning

namespace Host.Similar

variable {h h' : Host σ}

theorem refl (h : Host σ) : h.Similar h := ⟨rfl, rfl, rfl, rfl, rfl, rfl, rfl⟩

theorem setState (hh : h.Similar h') (s : σ) :
    Similar { h with state := s } { h' with state := s } :=
  ⟨rfl, hh.now_eq, hh.elapsed_eq, hh.closesAt_eq, hh.timer_eq, hh.ties_eq, hh.notices_eq⟩

/-- Both hosts are given the same notices, but for the warnings among them. -/
theorem append (hh : h.Similar h') {ns ns' : List Notice}
    (hns : (ns'.filter fun n => !n.isCapacityWarning) =
      ns.filter fun n => !n.isCapacityWarning) :
    Similar { h with notices := h.notices ++ ns } { h' with notices := h'.notices ++ ns' } := by
  refine ⟨hh.state_eq, hh.now_eq, hh.elapsed_eq, hh.closesAt_eq, hh.timer_eq, hh.ties_eq, ?_⟩
  rw [List.filter_append, List.filter_append, hh.notices_eq, hns]

/-- A wait ends alike on both hosts. -/
theorem sleep (hh : h.Similar h') (d : Duration) :
    (h'.sleep d).1 = (h.sleep d).1 ∧ (h.sleep d).2.Similar (h'.sleep d).2 := by
  obtain ⟨state, now, elapsed, closesAt, notices, timer, ties⟩ := h
  obtain ⟨state', now', elapsed', closesAt', notices', timer', ties'⟩ := h'
  obtain ⟨rfl, rfl, rfl, rfl, rfl, rfl, hnotices⟩ := hh
  unfold Host.sleep ending
  dsimp only
  cases closesAt' with
  | none => exact ⟨rfl, rfl, rfl, rfl, rfl, rfl, rfl, hnotices⟩
  | some t =>
    dsimp only
    split
    · exact ⟨rfl, rfl, rfl, rfl, rfl, rfl, rfl, hnotices⟩
    · split
      · exact ⟨rfl, rfl, rfl, rfl, rfl, rfl, rfl, hnotices⟩
      · exact ⟨rfl, rfl, rfl, rfl, rfl, rfl, rfl, hnotices⟩

end Host.Similar

/-- A program runs alike on similar hosts. -/
theorem Program.run_similar (b : Backend σ) (p : Program α) {h h' : Host σ} (hh : h.Similar h') :
    (p.run b h').1 = (p.run b h).1 ∧ (p.run b h).2.Similar (p.run b h').2 ∧
      p.exchanges b h' = p.exchanges b h := by
  induction p generalizing h h' with
  | done a => exact ⟨rfl, hh, rfl⟩
  | send r next ih =>
    obtain ⟨hresult, hhost, hexchanges⟩ :=
      ih (b.answer r h.state).1 (hh.setState (b.answer r h.state).2)
    simp only [run, exchanges, hh.state_eq]
    exact ⟨hresult, hhost, congrArg _ hexchanges⟩
  | wait d next ih =>
    obtain ⟨hending, hafter⟩ := hh.sleep d
    simp only [run, exchanges, hending]
    exact ih (h.sleep d).1 hafter
  | clock next ih =>
    simp only [run, exchanges, hh.now_eq]
    exact ih h.now hh
  | tell n next ih => exact ih (hh.append rfl)

/-- Notices that are given before a program. -/
theorem Program.run_foldr_tell (b : Backend σ) (p : Program α) (ns : List Notice) (h : Host σ) :
    (ns.foldr .tell p).run b h = p.run b { h with notices := h.notices ++ ns } ∧
      (ns.foldr .tell p).exchanges b h = p.exchanges b { h with notices := h.notices ++ ns } := by
  induction ns generalizing h with
  | nil => simp
  | cons n ns ih =>
    have htold := ih { h with notices := h.notices ++ [n] }
    rw [List.append_assoc] at htold
    exact htold

/-! ## Operations -/

namespace Operation

variable {b : Backend σ} {m m₁ : Memory} {h h₁ : Host σ}

/-- Runs of an operation that come to the same, with the same exchanges, but for the count of
throttled requests. -/
structure RunsAlike (b : Backend σ) (x : Operation α) (m m' : Memory) (h h' : Host σ) : Prop where
  outcome_eq : (x.run b m' h').outcome = (x.run b m h).outcome
  memory : (x.run b m h).memory.Alike (x.run b m' h').memory
  host : (x.run b m h).host.Similar (x.run b m' h').host
  exchanges_eq : x.exchanges b m' h' = x.exchanges b m h

/-- The count of throttled requests does not matter for what an operation comes to. -/
def Indifferent (x : Operation α) : Prop :=
  ∀ ⦃σ : Type⦄ (b : Backend σ) (m m' : Memory) (h h' : Host σ), m.Alike m' → h.Similar h' →
    x.RunsAlike b m m' h h'

namespace RunsAlike

variable {x : Operation α} {m' : Memory} {h' : Host σ}

/-- Runs that end like the runs of an operation that are alike. -/
theorem of_run_eq {y : Operation α} {n n' : Memory} {k k' : Host σ} (hx : x.RunsAlike b n n' k k')
    (hrun : y.run b m h = x.run b n k) (hrun' : y.run b m' h' = x.run b n' k')
    (hexchanges : y.exchanges b m' h' = y.exchanges b m h) : y.RunsAlike b m m' h h' := by
  refine ⟨?_, ?_, ?_, hexchanges⟩
  · rw [hrun, hrun', hx.outcome_eq]
  · rw [hrun, hrun']
    exact hx.memory
  · rw [hrun, hrun']
    exact hx.host

theorem of_runs {r : Except StoreError α} {m₁' : Memory} {h₁' : Host σ}
    (hrun : x.run b m h = ⟨r, m₁, h₁⟩) (hrun' : x.run b m' h' = ⟨r, m₁', h₁'⟩)
    (hm : m₁.Alike m₁') (hh : h₁.Similar h₁')
    (hexchanges : x.exchanges b m' h' = x.exchanges b m h) : x.RunsAlike b m m' h h' := by
  have hr : (ofResult r : Operation α).RunsAlike b m₁ m₁' h₁ h₁' := ⟨rfl, hm, hh, rfl⟩
  exact hr.of_run_eq hrun hrun' hexchanges

/-- One operation after another, of which the first is run alike. -/
theorem bind {f : α → Operation β} (hx : x.RunsAlike b m m' h h')
    (hf : ∀ a m₁ m₁' h₁ h₁', m₁.Alike m₁' → Host.Similar h₁ h₁' →
      (f a).RunsAlike b m₁ m₁' h₁ h₁') :
    (x >>= f).RunsAlike b m m' h h' := by
  obtain ⟨houtcome, hmemory, hhost, hexchanges⟩ := hx
  rcases hrun : x.run b m h with ⟨r, m₁, h₁⟩
  rcases hrun' : x.run b m' h' with ⟨r', m₁', h₁'⟩
  rw [hrun, hrun'] at houtcome hmemory hhost
  obtain rfl : r = r' := houtcome.symm
  cases r with
  | error e =>
    have he : (x.run b m h).outcome = .error e := by rw [hrun]
    have he' : (x.run b m' h').outcome = .error e := by rw [hrun']
    refine of_runs (r := .error e) ?_ ?_ hmemory hhost ?_
    · rw [run_bind, hrun]
      rfl
    · rw [run_bind, hrun']
      rfl
    · rw [exchanges_bind_of_error he, exchanges_bind_of_error he', hexchanges]
  | ok a =>
    have hrest := hf a m₁ m₁' h₁ h₁' hmemory hhost
    refine hrest.of_run_eq (run_bind_of_ok hrun) (run_bind_of_ok hrun') ?_
    rw [exchanges_bind_of_ok hrun, exchanges_bind_of_ok hrun', hexchanges, hrest.exchanges_eq]

end RunsAlike

theorem indifferent_perform (p : Program α) : (perform p).Indifferent := by
  intro σ b m m' h h' hm hh
  obtain ⟨hresult, hhost, hexchanges⟩ := p.run_similar b hh
  refine .of_runs (run_perform b p m h) ?_ hm hhost ?_
  · rw [run_perform, hresult]
  · rw [exchanges_perform, exchanges_perform, hexchanges]

end Operation

/-- What a store remembers once a failure of a request was reported that is tried again. -/
def Memory.counting (m : Memory) (e : ServiceError) : Memory :=
  if e.isThrottle then { m with throttleCount := m.throttleCount + 1 } else m

theorem Memory.alike_counting (m : Memory) (e : ServiceError) : m.Alike (m.counting e) := by
  unfold counting
  split
  · exact ⟨rfl, rfl⟩
  · exact .refl m

namespace Client

/-- What is told of a failure when the count of throttled requests is `count`. -/
def report (c : Client) (event : RetryEvent) (count : UInt64) : List Notice :=
  let first :=
    if event.error.isThrottle then
      if event.attempts = 1 ∧ count < c.throttleLogLimit then
        [.limitsReached event.operation c.table event.error]
      else []
    else if event.attempts = 1 then [.firstFailure event.operation event.target event.error]
    else []
  first ++ [.retrying event]

/-- The count decides on nothing but a warning. -/
theorem filter_report (c : Client) (event : RetryEvent) (count count' : UInt64) :
    ((c.report event count').filter fun n => !n.isCapacityWarning) =
      (c.report event count).filter fun n => !n.isCapacityWarning := by
  unfold report
  split
  · split
    · split
      · rfl
      · rfl
    · split
      · rfl
      · rfl
  · rfl

theorem start_reportRetry (c : Client) (event : RetryEvent) (m : Memory) :
    (c.reportRetry event).start m =
      (c.report event (m.throttleCount + 1)).foldr .tell
        (.done (.ok (), m.counting event.error)) := by
  unfold reportRetry report Memory.counting
  cases hthrottle : event.error.isThrottle with
  | true =>
    show Operation.start (if _ then _ else _) { m with throttleCount := m.throttleCount + 1 } = _
    dsimp only
    split
    · rfl
    · rfl
  | false =>
    dsimp only
    by_cases hfirst : event.attempts = 1
    · rw [if_pos hfirst, if_pos hfirst]
      rfl
    · rw [if_neg hfirst, if_neg hfirst]
      rfl

theorem exchanges_reportRetry (c : Client) (event : RetryEvent) (b : Backend σ) (m : Memory)
    (h : Host σ) : (c.reportRetry event).exchanges b m h = [] := by
  unfold Operation.exchanges
  rw [start_reportRetry, (Program.run_foldr_tell b _ _ h).2]
  rfl

theorem run_reportRetry (c : Client) (event : RetryEvent) (b : Backend σ) (m : Memory)
    (h : Host σ) :
    (c.reportRetry event).run b m h = ⟨.ok (), m.counting event.error,
      { h with notices := h.notices ++ c.report event (m.throttleCount + 1) }⟩ := by
  unfold Operation.run
  rw [start_reportRetry, (Program.run_foldr_tell b _ _ h).1]
  rfl

/-- A report comes to the same whatever the count is. -/
theorem indifferent_reportRetry (c : Client) (event : RetryEvent) :
    (c.reportRetry event).Indifferent := by
  intro σ b m m' h h' hm hh
  refine .of_runs (c.run_reportRetry event b m h) (c.run_reportRetry event b m' h')
    (((m.alike_counting _).symm.trans hm).trans (m'.alike_counting _))
    (hh.append (c.filter_report event _ _)) ?_
  rw [exchanges_reportRetry, exchanges_reportRetry]

end Client

/-- The count does not matter for what is composed of steps. -/
theorem Operation.Composed.indifferent {allowed : Request → Prop} {x : Operation α}
    (hx : x.Composed allowed) : x.Indifferent := by
  induction hx with
  | value x => exact fun _ _ _ _ _ _ hm hh => ⟨rfl, hm, hh, rfl⟩
  | program _ => exact indifferent_perform _
  | report c event => exact c.indifferent_reportRetry event
  | count _ ih =>
    intro σ b m m' h h' hm hh
    have hx := ih b { m with throttleCount := m.throttleCount + 1 }
      { m' with throttleCount := m'.throttleCount + 1 } h h' ⟨hm.binding_eq, hm.destroyed_eq⟩ hh
    exact hx.of_run_eq rfl rfl hx.exchanges_eq
  | @known _ f _ heq ih =>
    intro σ b m m' h h' hm hh
    have hf := ih m b m m' h h' hm hh
    have hrun' : (getThe Memory >>= f).run b m' h' = (f m).run b m' h' := by
      rw [← heq m m' hm]
      rfl
    have hsent (m : Memory) (h : Host σ) :
        (getThe Memory >>= f).exchanges b m h = (f m).exchanges b m h := rfl
    refine hf.of_run_eq rfl hrun' ?_
    rw [hsent, hsent, heq m m' hm, hf.exchanges_eq]
  | learned hf => exact fun _ _ _ _ _ _ hm hh => ⟨rfl, hf _ _ hm, hh, rfl⟩
  | followed _ _ ihx ihf =>
    intro σ b m m' h h' hm hh
    exact (ihx b m m' h h' hm hh).bind fun a m₁ m₁' h₁ h₁' hm₁ hh₁ =>
      ihf a b m₁ m₁' h₁ h₁' hm₁ hh₁
  | settled _ ih =>
    intro σ b m m' h h' hm hh
    have hx := ih b m m' h h' hm hh
    refine .of_runs (run_outcome b _ m h) ?_ hx.memory hx.host ?_
    · rw [run_outcome, hx.outcome_eq]
    · rw [exchanges_outcome, exchanges_outcome, hx.exchanges_eq]

/-! ## All that a store is asked for -/

namespace Operation

variable {b : Backend σ} {m : Memory} {h : Host σ}

theorem run_map (f : α → β) (x : Operation α) :
    (f <$> x).run b m h =
      ⟨(x.run b m h).outcome.map f, (x.run b m h).memory, (x.run b m h).host⟩ := by
  rw [map_eq_pure_bind, run_bind]
  rcases x.run b m h with ⟨_ | a, m₁, h₁⟩
  · rfl
  · rfl

theorem exchanges_map (f : α → β) (x : Operation α) :
    (f <$> x).exchanges b m h = x.exchanges b m h := by
  rw [map_eq_pure_bind]
  rcases hrun : x.run b m h with ⟨e | a, m₁, h₁⟩
  · have he : (x.run b m h).outcome = .error e := by rw [hrun]
    exact exchanges_bind_of_error he _
  · rw [exchanges_bind_of_ok hrun]
    exact List.append_nil _

end Operation

/-- The count of throttled requests is told last, under a name of its own. -/
theorem Store.exists_diagnosis_eq_insert (s : Store) (facts : List (String × String)) :
    ∃ others : Std.ExtTreeMap String String, ∀ count,
      s.diagnosis facts count = others.insert "throttleEvents" (toString count) := by
  refine ⟨.ofList (facts ++ [("description", "Table-backed metadata store"), ("region", s.region),
    ("retryPolicy", s.client.policy.text)]), fun count => ?_⟩
  unfold diagnosis
  rw [Std.ExtTreeMap.ofList_eq_insertMany_empty, Std.ExtTreeMap.ofList_eq_insertMany_empty,
    ← Std.ExtTreeMap.insertMany_list_singleton, ← Std.ExtTreeMap.insertMany_append,
    List.append_assoc]
  rfl

/-- The rest of the diagnostics does not depend on it. -/
theorem Store.erase_diagnosis (s : Store) (facts : List (String × String)) (count count' : Nat) :
    (s.diagnosis facts count').erase "throttleEvents" =
      (s.diagnosis facts count).erase "throttleEvents" := by
  obtain ⟨others, hothers⟩ := s.exists_diagnosis_eq_insert facts
  rw [hothers, hothers]
  apply Std.ExtTreeMap.ext_getElem?
  intro name
  rw [Std.ExtTreeMap.getElem?_erase, Std.ExtTreeMap.getElem?_erase]
  split
  · rfl
  · rename_i hname
    rw [Std.ExtTreeMap.getElem?_insert, Std.ExtTreeMap.getElem?_insert, if_neg hname, if_neg hname]

namespace Action

/-- What an action gives, but for the count of throttled requests. -/
def withoutCount : (a : Action) → a.Result → a.Result
  | .diagnostics => fun facts => facts.erase "throttleEvents"
  | _ => id

theorem composed_withoutCount (s : Store) (visits : Nat) (a : Action) :
    (a.withoutCount <$> a.perform s visits).Composed fun _ => True := by
  by_cases ha : a = .diagnostics
  · subst ha
    show Composed _ ((fun facts : Std.ExtTreeMap String String => facts.erase "throttleEvents") <$>
      s.diagnostics)
    rw [s.diagnostics_eq, map_bind]
    refine s.composed_facts.any.bind fun facts => ?_
    rw [map_bind]
    refine .known (fun m => ?_) fun m m' _ => ?_
    · rw [map_pure]
      exact composed_pure _
    · rw [map_pure, map_pure, s.erase_diagnosis facts m.throttleEvents]
  · have hid : a.withoutCount = id := by
      cases a with
      | diagnostics => exact absurd rfl ha
      | _ => rfl
    rw [hid, id_map]
    exact a.composed_perform s visits ha

/-- **The count does not matter.** Two runs of an action that start with different counts of throttled
requests, and otherwise alike, give the same but for the count, with the same exchanges, and end
alike. -/
theorem alike_perform (s : Store) (visits : Nat) (a : Action) (b : Backend σ) {m m' : Memory}
    {h h' : Host σ} (hm : m.Alike m') (hh : h.Similar h') :
    ((a.perform s visits).run b m' h').outcome.map a.withoutCount =
        ((a.perform s visits).run b m h).outcome.map a.withoutCount ∧
      ((a.perform s visits).run b m h).memory.Alike ((a.perform s visits).run b m' h').memory ∧
      ((a.perform s visits).run b m h).host.Similar ((a.perform s visits).run b m' h').host ∧
      (a.perform s visits).exchanges b m' h' = (a.perform s visits).exchanges b m h := by
  obtain ⟨houtcome, hmemory, hhost, hexchanges⟩ :=
    (a.composed_withoutCount s visits).indifferent b m m' h h' hm hh
  rw [run_map, run_map] at houtcome hmemory hhost
  rw [exchanges_map, exchanges_map] at hexchanges
  exact ⟨houtcome, hmemory, hhost, hexchanges⟩

end Action

end TableTree
