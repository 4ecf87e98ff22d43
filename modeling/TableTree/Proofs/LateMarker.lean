import Mathlib.Algebra.BigOperators.Group.Finset.Basic
import TableTree.Proofs.RetryCourse
import TableTree.Proofs.Rebinding
import TableTree.Proofs.Undisturbed.Service

/-!
# A marker that comes late

Whoever makes a table writes its version marker a little later. Binding to a table without a marker
waits for it: it reads the marker again after each wait of the policy. Each of these reads is tried
under the policy itself, with a budget of its own, so requests that are throttled take time and
nothing else.

Results:

* `Policy.waited`: how long the first waits of a policy take; `Policy.waited_congr`: by every timer
  that is made for its longest wait they take the same.
* `Client.exists_run_retryFrom_of_failures`: a request that fails for now so many times.
* `Service.strained`: a service with somebody who has requests throttled as reads are served.
* `Service.Awaits`, `Service.IsStrained`: services on which an item is to come after so many reads.
* `Settings.exists_run_awaitMarker_from`: how the reads of the marker go on.
* `Settings.bind_late_marker`: when binding finds a marker that comes late, and how long it takes.
-/

namespace TableTree

open Operation

variable {σ α : Type}

/-! ## Time spent waiting -/

/-- How long the wait of a policy after so many other waits takes, as `millis` measures it. -/
def Policy.waitMillis (p : Policy) (millis : Duration → Nat) (count : Nat) : Nat :=
  (p.delay? (.ofNat count)).elim 0 millis

/-- How long the first so many waits of a policy take. -/
def Policy.waited (p : Policy) (millis : Duration → Nat) (n : Nat) : Nat :=
  ∑ count ∈ Finset.range n, p.waitMillis millis count

/-- How long the waits of the first so many requests take, when each is tried again as often as
`strain` says. -/
def Policy.strained (p : Policy) (millis : Duration → Nat) (strain : Nat → Nat) (n : Nat) : Nat :=
  ∑ k ∈ Finset.range n, p.waited millis (strain k)

namespace Policy

variable {p : Policy} {millis millis' : Duration → Nat}

theorem waited_succ (p : Policy) (millis : Duration → Nat) (n : Nat) :
    p.waited millis (n + 1) = p.waited millis n + p.waitMillis millis n :=
  Finset.sum_range_succ ..

theorem strained_succ (p : Policy) (millis : Duration → Nat) (strain : Nat → Nat) (n : Nat) :
    p.strained millis strain (n + 1) = p.strained millis strain n + p.waited millis (strain n) :=
  Finset.sum_range_succ ..

/-- No wait of a policy is longer than its longest one. -/
theorem le_maxDelay_of_delay? {count : UInt32} {d : Duration} (hd : p.delay? count = some d) :
    d ≤ p.maxDelay := by
  rw [Duration.le_iff, nanos_delay? hd]
  exact Nat.min_le_right ..

/-- The waits of a policy take as long by two measures that agree up to its longest wait. -/
theorem waited_congr (hsame : ∀ d ≤ p.maxDelay, millis d = millis' d) (n : Nat) :
    p.waited millis n = p.waited millis' n := by
  refine Finset.sum_congr rfl fun count _ => ?_
  unfold waitMillis
  cases hd : p.delay? (.ofNat count) with
  | none => rfl
  | some d => exact hsame d (le_maxDelay_of_delay? hd)

theorem strained_congr (hsame : ∀ d ≤ p.maxDelay, millis d = millis' d) (strain : Nat → Nat)
    (n : Nat) : p.strained millis strain n = p.strained millis' strain n :=
  Finset.sum_congr rfl fun k _ => waited_congr hsame (strain k)

end Policy

/-- No shutdown is to come on a host, and its waits are timed by `timer`. -/
structure Host.IsOpen (h : Host σ) (timer : Timer) : Prop where
  closesAt : h.closesAt = none
  timer_eq : h.timer = timer

namespace Client

variable {c : Client} {operation target : String} {idempotent : Bool} {b : Backend σ} {h : Host σ}
  {timer : Timer}

/-- A wait of the policy takes its time, when no shutdown is to come. -/
theorem run_pause_of_open {d : Duration} {count : Nat} (hopen : h.IsOpen timer)
    (hd : c.policy.delay? (.ofNat count) = some d) (m : Memory) :
    (c.pause operation target d).run b m h =
      ⟨.ok (), m, { h with elapsed := h.elapsed + c.policy.waitMillis timer.millis count }⟩ := by
  have hsleep := Host.sleep_of_open hopen.closesAt d
  have hmillis : h.ending d = h.elapsed + c.policy.waitMillis timer.millis count := by
    rw [Host.ending, hopen.timer_eq, Policy.waitMillis, hd, Option.elim_some]
  rw [run_pause (congrArg Prod.fst hsleep), hsleep, hmillis]

/-- A failure for now within the budget is followed by the wait of the policy and the next try. -/
theorem exists_run_afterAttempt {attempt : Program (Except ServiceError α)} {e : ServiceError}
    {count : Nat} (hretry : shouldRetry e idempotent = true)
    (hcount : count < c.policy.maxRetries.toNat) (hopen : h.IsOpen timer) (m : Memory) :
    ∃ m' h', (c.afterAttempt operation target idempotent attempt ⟨c.policy, .ofNat count⟩
        (.error e)).run b m h =
          (c.retryFrom operation target idempotent attempt ⟨c.policy, .ofNat (count + 1)⟩).run b m' h' ∧
      h'.state = h.state ∧ h'.IsOpen timer ∧
      h'.elapsed = h.elapsed + c.policy.waitMillis timer.millis count := by
  obtain ⟨d, hd⟩ := exists_delay?_eq c.policy hcount
  rw [afterAttempt, if_pos hretry, next?_ofNat hcount hd]
  dsimp only
  rw [run_bind_of_ok (run_reportRetry ..),
    run_bind_of_ok (run_pause_of_open (by exact ⟨hopen.closesAt, hopen.timer_eq⟩) hd _)]
  exact ⟨_, _, rfl, rfl, ⟨hopen.closesAt, hopen.timer_eq⟩, rfl⟩

/-- Within the budget, a request that fails for now so many times is granted after that. -/
theorem exists_run_retryFrom_of_failures {r : Request} {a : r.Reply} {I : Nat → σ → Prop}
    {Q : σ → Prop}
    (hfails : ∀ n st, I (n + 1) st →
      ∃ e st', b.answer r st = (.error e, st') ∧ shouldRetry e idempotent = true ∧ I n st')
    (hgrants : ∀ st, I 0 st → ∃ st', b.answer r st = (.ok a, st') ∧ Q st') {n : Nat}
    (count : Nat) (hcount : count + n ≤ c.policy.maxRetries.toNat) (hI : I n h.state)
    (hopen : h.IsOpen timer) (m : Memory) :
    ∃ m' h', (c.retryFrom operation target idempotent (.ask r) ⟨c.policy, .ofNat count⟩).run b m h =
        ⟨.ok a, m', h'⟩ ∧
      Q h'.state ∧ h'.IsOpen timer ∧
      h'.elapsed + c.policy.waited timer.millis count =
        h.elapsed + c.policy.waited timer.millis (count + n) := by
  induction n generalizing count m h with
  | zero =>
    obtain ⟨st', hanswer, hQ⟩ := hgrants h.state hI
    have hattempt : (Program.ask r).run b h = (.ok a, { h with state := st' }) := by
      rw [Program.run_ask, hanswer]
    refine ⟨m, { h with state := st' }, ?_, hQ, ⟨hopen.closesAt, hopen.timer_eq⟩, rfl⟩
    rw [run_retryFrom_of_ok (congrArg Prod.fst hattempt), hattempt]
  | succ n ih =>
    obtain ⟨e, st', hanswer, hretry, hI'⟩ := hfails n h.state hI
    have hattempt : (perform (.ask r)).run b m h = ⟨.ok (.error e), m, { h with state := st' }⟩ :=
      run_perform_ask hanswer
    rw [retryFrom_eq, run_bind_of_ok hattempt]
    obtain ⟨m₁, h₁, hafter, hstate₁, hopen₁, helapsed₁⟩ :=
      exists_run_afterAttempt (b := b) (c := c) (h := { h with state := st' }) hretry
        (show count < _ by omega) ⟨hopen.closesAt, hopen.timer_eq⟩ m
    obtain ⟨m₂, h₂, hrun, hQ, hopen₂, helapsed₂⟩ :=
      ih (count + 1) (by omega) (show I n h₁.state from hstate₁ ▸ hI') hopen₁ m₁
    refine ⟨m₂, h₂, hafter.trans hrun, hQ, hopen₂, ?_⟩
    rw [c.policy.waited_succ, Nat.add_right_comm count] at helapsed₂
    dsimp only at helapsed₁
    show _ = h.elapsed + c.policy.waited timer.millis (count + n + 1)
    omega

end Client

/-! ## Reads that are throttled -/

namespace Service

/-- Whether a request is a read of an item that the service is about to serve. -/
def servesRead (s : Service) : Request → Bool
  | .getItem .. => s.takeFault.1.isNone
  | _ => false

/-- A service with somebody who has requests throttled as reads are served: as soon as so many reads
have been served, `strain` says how many requests more are to be throttled. The number of reads served
is kept beside the service. -/
def strained (strain : Nat → Nat) : Backend (Service × Nat) where
  answer r st :=
    let (answer, s) := st.1.answer r
    (answer,
      if st.1.servesRead r then (s.planThrottles (strain (st.2 + 1)), st.2 + 1) else (s, st.2))

/-- Without throttling after the first read, that is the service itself. -/
theorem answer_strained_of_unstrained {strain : Nat → Nat} (hstrain : ∀ k, strain (k + 1) = 0)
    (r : Request) (st : Service × Nat) :
    backend.answer r st.1 =
      (((strained strain).answer r st).1, ((strained strain).answer r st).2.1) := by
  unfold strained
  dsimp only
  rw [hstrain]
  split
  · rfl
  · rfl

/-- A service that is going to throttle so many requests, and on which an item comes to an active
table, or has come already, after so many reads. -/
structure Awaits (s : Service) (t : String) (item : Item) (reads throttles : Nat) : Prop where
  exists_table : ∃ table, s.tables[t]? = some table ∧
    TableStatus.ofText table.status = .active ∧
    table.items.item? item.key = if reads = 0 then some item else none
  lateWrites_eq : s.plan.lateWrites = if reads = 0 then [] else [⟨t, item, reads⟩]
  throttles_eq : s.plan.throttles = throttles
  faults_eq : s.plan.faults = 0

variable {s : Service} {t : String} {item : Item} {reads throttles : Nat} {table : Table}

/-- When the item is stored, it has come. -/
theorem awaits_mapItems_put (htable : s.tables[t]? = some table)
    (hactive : TableStatus.ofText table.status = .active) (hcalm : s.IsCalm)
    (hthrottles : s.plan.throttles = throttles) (hfaults : s.plan.faults = 0) :
    (s.mapItems t (·.apply (.put item))).Awaits t item 0 throttles := by
  have hstored : (table.items.apply (.put item)).item? item.key = some item := by
    rw [Items.item?_apply]
    exact if_pos rfl
  refine ⟨⟨_, getElem?_mapItems htable _, hactive, hstored⟩, ?_, ?_, ?_⟩
  · rw [plan_mapItems]
    exact hcalm
  · rw [plan_mapItems, hthrottles]
  · rw [plan_mapItems, hfaults]

/-- Requests that are to be throttled change nothing else. -/
theorem Awaits.planThrottles (h : s.Awaits t item reads throttles) (n : Nat) :
    (s.planThrottles n).Awaits t item reads (throttles + n) :=
  ⟨h.exists_table, h.lateWrites_eq, congrArg (· + n) h.throttles_eq, h.faults_eq⟩

/-- A write that is planned is awaited. -/
theorem awaits_planLateWrite (hs : s.IsQuiet) (htable : s.tables[t]? = some table)
    (hactive : TableStatus.ofText table.status = .active)
    (hmissing : table.items.item? item.key = none) (reads : Nat) :
    (s.planLateWrite t item reads).Awaits t item reads 0 := by
  cases reads with
  | zero => exact awaits_mapItems_put htable hactive hs.isCalm hs.throttles hs.faults
  | succ reads =>
    have hlate : s.plan.lateWrites ++ [⟨t, item, reads + 1⟩] = [⟨t, item, reads + 1⟩] := by
      rw [hs.isCalm, List.nil_append]
    exact ⟨⟨table, htable, hactive, hmissing⟩, hlate, hs.throttles, hs.faults⟩

/-- A request is throttled as long as there are some to be throttled. -/
theorem exists_takeFault_of_throttles (hs : s.plan.throttles = throttles + 1) :
    ∃ reason s₁, s.takeFault = (some (.throttled reason), s₁) ∧ s₁.tables = s.tables ∧
      s₁.plan = { s.plan with throttles := throttles } := by
  unfold takeFault
  rw [if_pos (by omega), hs]
  exact ⟨_, _, rfl, rfl, rfl⟩

namespace Awaits

theorem of_same (h : s.Awaits t item reads throttles) {s' : Service}
    (htable : s'.tables[t]? = s.tables[t]?) (hplan : s'.plan = s.plan) :
    s'.Awaits t item reads throttles := by
  refine ⟨?_, ?_, ?_, ?_⟩
  · rw [htable]
    exact h.exists_table
  · rw [hplan]
    exact h.lateWrites_eq
  · rw [hplan]
    exact h.throttles_eq
  · rw [hplan]
    exact h.faults_eq

theorem count (h : s.Awaits t item reads throttles) (r : Request) :
    (s.count r).Awaits t item reads throttles :=
  h.of_same (by rw [(s.sameTables_count r).tables]) (s.plan_count r)

/-- A look finds the table active. -/
theorem exists_answer_describeTable (h : s.Awaits t item reads throttles) :
    ∃ d s₁, s.answer (.describeTable t) = (.ok d, s₁) ∧ d.tableStatus = .active ∧
      s₁.Awaits t item reads throttles := by
  obtain ⟨table, htable, hactive, -⟩ := h.exists_table
  obtain ⟨d, s₁, hanswer, hstatus, hlook, hplan⟩ := Service.exists_answer_describeTable htable
  rw [Table.look_eq hactive] at hstatus hlook
  exact ⟨d, s₁, hanswer, hstatus.trans hactive, h.of_same (hlook.trans htable.symm) hplan⟩

/-- A request that is throttled leaves one less to be throttled, and is not served. -/
theorem exists_answer_throttled (h : s.Awaits t item reads (throttles + 1)) (key : Key) :
    ∃ e s₁, s.answer (.getItem t key) = (.error e, s₁) ∧ Client.shouldRetry e true = true ∧
      s₁.Awaits t item reads throttles ∧ s.servesRead (.getItem t key) = false := by
  have hcount := h.count (.getItem t key)
  obtain ⟨reason, s₁, hfault, htables, hplan⟩ := exists_takeFault_of_throttles hcount.throttles_eq
  obtain ⟨_, _, hserves, -, -⟩ := exists_takeFault_of_throttles h.throttles_eq
  have hanswer : s.answer (.getItem t key) = (.error (.throttled reason), s₁) := by
    show unlessFault (s.count (.getItem t key)) _ = _
    rw [unlessFault, hfault]
  refine ⟨_, s₁, hanswer, rfl, ⟨?_, ?_, ?_, ?_⟩, ?_⟩
  · rw [htables]
    exact hcount.exists_table
  · rw [hplan]
    exact hcount.lateWrites_eq
  · rw [hplan]
  · rw [hplan]
    exact hcount.faults_eq
  · rw [servesRead, hserves]
    rfl

/-- A read that is served brings the item one read closer. -/
theorem serveRead (h : s.Awaits t item reads throttles) :
    s.serveRead.Awaits t item (reads - 1) throttles := by
  obtain ⟨table, htable, hactive, hfound⟩ := h.exists_table
  match reads, h.lateWrites_eq, hfound with
  | 0, hlate, hfound =>
    rw [serveRead_eq hlate]
    exact ⟨⟨table, htable, hactive, hfound⟩, hlate, h.throttles_eq, h.faults_eq⟩
  | 1, hlate, hfound =>
    rw [if_neg (Nat.succ_ne_zero _)] at hlate
    have hserve : s.serveRead =
        { s with plan := { s.plan with lateWrites := [] } }.mapItems t (·.apply (.put item)) := by
      unfold Service.serveRead
      rw [hlate]
      rfl
    rw [hserve]
    exact awaits_mapItems_put htable hactive rfl h.throttles_eq h.faults_eq
  | reads + 2, hlate, hfound =>
    rw [if_neg (Nat.succ_ne_zero _)] at hlate
    have hserve : s.serveRead =
        { s with plan := { s.plan with lateWrites := [⟨t, item, reads + 1⟩] } } := by
      unfold Service.serveRead
      rw [hlate]
      rfl
    rw [hserve]
    exact ⟨⟨table, htable, hactive, hfound⟩, rfl, h.throttles_eq, h.faults_eq⟩

/-- A read that is served finds the item if it has come. -/
theorem exists_answer_served (h : s.Awaits t item reads 0) :
    ∃ s₁, s.answer (.getItem t item.key) = (.ok (if reads = 0 then some item else none), s₁) ∧
      s₁.Awaits t item (reads - 1) 0 ∧ s.servesRead (.getItem t item.key) = true := by
  have hcount := h.count (.getItem t item.key)
  obtain ⟨table, htable, -, hfound⟩ := hcount.exists_table
  have hfair : (s.count (.getItem t item.key)).NeverFails := ⟨hcount.throttles_eq, hcount.faults_eq⟩
  refine ⟨_, ?_, hcount.serveRead, ?_⟩
  · show unlessFault (s.count (.getItem t item.key)) _ = _
    rw [hfair.unlessFault_eq, getItem, readItems, items?, htable, ← hfound]
    rfl
  · simp [servesRead, takeFault, h.throttles_eq, h.faults_eq]

end Awaits

/-- A strained service of which so many reads have been served. -/
def IsStrained (t : String) (item : Item) (reads served throttles : Nat) (st : Service × Nat) : Prop :=
  st.1.Awaits t item reads throttles ∧ st.2 = served

namespace IsStrained

variable {strain : Nat → Nat} {served : Nat} {st : Service × Nat}

/-- A read that is served finds the item if it has come, and has further requests throttled. -/
theorem exists_answer_served (h : IsStrained t item reads served 0 st) :
    ∃ st', (strained strain).answer (.getItem t item.key) st =
        (.ok (if reads = 0 then some item else none), st') ∧
      IsStrained t item (reads - 1) (served + 1) (strain (served + 1)) st' := by
  obtain ⟨s, k⟩ := st
  obtain ⟨hs, rfl⟩ : s.Awaits t item reads _ ∧ k = served := h
  obtain ⟨s₁, hanswer, hs₁, hserves⟩ := hs.exists_answer_served
  have hplanned := hs₁.planThrottles (strain (k + 1))
  rw [Nat.zero_add] at hplanned
  refine ⟨(s₁.planThrottles (strain (k + 1)), k + 1), ?_, hplanned, rfl⟩
  simp only [strained, hanswer, hserves, if_true]

/-- A request that is throttled leaves one less to be throttled, and changes nothing else. -/
theorem exists_answer_throttled (h : IsStrained t item reads served (throttles + 1) st) (key : Key) :
    ∃ e st', (strained strain).answer (.getItem t key) st = (.error e, st') ∧
      Client.shouldRetry e true = true ∧ IsStrained t item reads served throttles st' := by
  obtain ⟨s, k⟩ := st
  obtain ⟨hs, rfl⟩ : s.Awaits t item reads _ ∧ k = served := h
  obtain ⟨e, s₁, hanswer, hretry, hs₁, hserves⟩ := hs.exists_answer_throttled key
  refine ⟨e, (s₁, k), ?_, hretry, hs₁, rfl⟩
  simp only [strained, hanswer, hserves, Bool.false_eq_true, if_false]

/-- A look finds the table active, and changes nothing. -/
theorem exists_answer_describeTable (h : IsStrained t item reads served throttles st) :
    ∃ d st', (strained strain).answer (.describeTable t) st = (.ok d, st') ∧
      d.tableStatus = .active ∧ IsStrained t item reads served throttles st' := by
  obtain ⟨s, k⟩ := st
  obtain ⟨hs, rfl⟩ : s.Awaits t item reads _ ∧ k = served := h
  obtain ⟨d, s₁, hanswer, hstatus, hs₁⟩ := hs.exists_answer_describeTable
  refine ⟨d, (s₁, k), ?_, hstatus, hs₁, rfl⟩
  simp only [strained, hanswer, servesRead, Bool.false_eq_true, if_false]

end IsStrained

end Service

/-! ## Waiting for the marker -/

namespace Settings

variable {s : Settings} {m : Memory} {h : Host (Service × Nat)} {marker : Item} {reads : Nat}
  {strain : Nat → Nat} {timer : Timer}

/-- Within its budget, a read of the marker that is throttled so many times takes so many waits, and is
served then. -/
theorem exists_run_readMarker {served : Nat} (hkey : marker.key = Marker.key)
    (hst : Service.IsStrained s.tableName marker reads served (strain served) h.state)
    (hstrain : strain served ≤ s.maxRetries.toNat) (hopen : h.IsOpen timer) (m : Memory) :
    ∃ m' h', s.readMarker.run (Service.strained strain) m h =
        ⟨.ok (if reads = 0 then some marker else none), m', h'⟩ ∧
      Service.IsStrained s.tableName marker (reads - 1) (served + 1) (strain (served + 1)) h'.state ∧
      h'.IsOpen timer ∧
      h'.elapsed = h.elapsed + s.policy.waited timer.millis (strain served) := by
  obtain ⟨m', h', hrun, hst', hopen', helapsed⟩ :=
    Client.exists_run_retryFrom_of_failures (c := s.client) (b := Service.strained strain)
      (r := .getItem s.tableName Marker.key)
      (I := Service.IsStrained s.tableName marker reads served)
      (fun _ _ hst => hst.exists_answer_throttled Marker.key)
      (fun _ hst => hkey ▸ hst.exists_answer_served) 0 (by rwa [Nat.zero_add]) hst hopen m
  refine ⟨m', h', hrun, hst', hopen', ?_⟩
  rwa [Nat.zero_add] at helapsed

/-- How the reads of the marker go on after `count` of them, and as many waits. The marker is found if
the budget allows a wait for each read that it takes, and the reads end with the marker or with the
budget. -/
theorem exists_run_awaitMarker_from (count : Nat) (hkey : marker.key = Marker.key)
    (hstrain : ∀ k, strain k ≤ s.maxRetries.toNat) (hcount : count ≤ s.maxRetries.toNat)
    (hst : Service.IsStrained s.tableName marker reads count (strain count) h.state)
    (hopen : h.IsOpen timer) (m : Memory) :
    ∃ m' h', (s.awaitMarker ⟨s.policy, .ofNat count⟩).run (Service.strained strain) m h =
        ⟨.ok (if count + reads ≤ s.maxRetries.toNat then some marker else none), m', h'⟩ ∧
      h'.state.2 = min (count + reads) s.maxRetries.toNat + 1 ∧
      h'.elapsed + s.policy.waited timer.millis count +
          s.policy.strained timer.millis strain count =
        h.elapsed + s.policy.waited timer.millis (min (count + reads) s.maxRetries.toNat) +
          s.policy.strained timer.millis strain (min (count + reads) s.maxRetries.toNat + 1) := by
  induction reads generalizing count m h with
  | zero =>
    obtain ⟨m₁, h₁, hread, ⟨-, hserved₁⟩, -, helapsed₁⟩ :=
      exists_run_readMarker hkey hst (hstrain _) hopen m
    have hlast : min (count + 0) s.maxRetries.toNat = count := Nat.min_eq_left hcount
    rw [awaitMarker, run_bind_of_ok hread, hlast, if_pos rfl, if_pos (by exact hcount)]
    refine ⟨m₁, h₁, rfl, hserved₁, ?_⟩
    rw [helapsed₁, s.policy.strained_succ]
    omega
  | succ reads ih =>
    obtain ⟨m₁, h₁, hread, hst₁, hopen₁, helapsed₁⟩ :=
      exists_run_readMarker hkey hst (hstrain _) hopen m
    rw [awaitMarker, run_bind_of_ok hread, if_neg (Nat.succ_ne_zero reads)]
    dsimp only
    split
    · rename_i hnext
      -- the budget is spent
      have hnone : s.policy.delay? (.ofNat count) = none := Option.map_eq_none_iff.1 hnext
      have hspent : ¬ count < s.maxRetries.toNat :=
        mt (Client.isSome_delay?_iff s.policy hcount).2 (Option.not_isSome_iff_eq_none.2 hnone)
      obtain rfl : count = s.maxRetries.toNat := by omega
      have hlast : min (s.maxRetries.toNat + (reads + 1)) s.maxRetries.toNat = s.maxRetries.toNat :=
        Nat.min_eq_right (Nat.le_add_right ..)
      rw [hlast, if_neg (by omega)]
      refine ⟨m₁, h₁, rfl, hst₁.2, ?_⟩
      rw [helapsed₁, s.policy.strained_succ]
      omega
    · rename_i d backoff' hnext
      obtain ⟨hd, rfl⟩ := Backoff.next?_eq_some_iff.1 hnext
      have hlt : count < s.maxRetries.toNat :=
        (Client.isSome_delay?_iff s.policy hcount).1 (Option.isSome_of_eq_some hd)
      rw [run_bind_of_ok (Client.run_pause_of_open (c := s.client) hopen₁ hd m₁)]
      dsimp only
      rw [← (Client.toNat_ofNat_of_lt hlt).2.2]
      obtain ⟨m₂, h₂, hrun, hserved₂, helapsed₂⟩ :=
        ih (h := { h₁ with elapsed := h₁.elapsed + s.policy.waitMillis timer.millis count })
          (count + 1) hlt hst₁ ⟨hopen₁.closesAt, hopen₁.timer_eq⟩ m₁
      have hsum : count + 1 + reads = count + (reads + 1) := by omega
      rw [hsum] at hrun hserved₂ helapsed₂
      refine ⟨m₂, h₂, hrun, hserved₂, ?_⟩
      rw [s.policy.waited_succ, s.policy.strained_succ] at helapsed₂
      dsimp only at helapsed₂
      omega

/-- **A marker that comes late.** A quiet service has an active table without a version marker, and
somebody is to store a marker with the current version in it once so many reads have been served.
Meanwhile requests are throttled, a number of them for each read, within its budget. Binding finds the
marker exactly if the budget allows a wait for each read that the marker takes, and otherwise misses
it. It has one read served more than there are waits between them. These are the first waits of the
policy, and so are those of the throttled requests of each read. If the timer is made for the longest
of them, each takes the milliseconds that it fills or begins. Throttling changes nothing but the time
that is waited. When only the first read is throttled, the service is the plain one with so many
requests to be throttled. -/
theorem bind_late_marker {h : Host Service} {table : Service.Table} (hh : h.IsQuiet)
    (htable : h.state.tables[s.tableName]? = some table)
    (hactive : TableStatus.ofText table.status = .active)
    (hmissing : table.items.item? Marker.key = none) (hkey : marker.key = Marker.key)
    (hversion : marker.long? Marker.versionName = some Marker.current) (reads : Nat)
    (hstrain : ∀ k, strain k ≤ s.maxRetries.toNat) :
    let late := (h.state.planLateWrite s.tableName marker reads).planThrottles (strain 0)
    let run := s.bind.run (Service.strained strain) m (h.mapState fun _ => (late, 0))
    let waits := min reads s.maxRetries.toNat
    (run.outcome = if reads ≤ s.maxRetries.toNat
        then .ok ⟨false, Marker.current, Marker.createdAt? marker⟩
        else .error (.noVersionMarker s.tableName)) ∧
      run.host.state.2 = waits + 1 ∧
      (s.policy.maxDelay ≤ h.timer.longest → run.host.elapsed =
        h.elapsed + s.policy.waited Duration.ceilMillis waits +
          s.policy.strained Duration.ceilMillis strain (waits + 1)) ∧
      ((∀ k, strain (k + 1) = 0) →
        s.bind.run Service.backend m { h with state := late } =
          ⟨run.outcome, run.memory, run.host.mapState Prod.fst⟩) := by
  intro late run waits
  have hlate : late.Awaits s.tableName marker reads (strain 0) := by
    have hplanned := (Service.awaits_planLateWrite hh.state htable hactive (hkey ▸ hmissing)
      reads).planThrottles (strain 0)
    rwa [Nat.zero_add] at hplanned
  have hstart : Service.IsStrained s.tableName marker reads 0 (strain 0) (late, 0) := ⟨hlate, rfl⟩
  obtain ⟨d, st, hanswer, hstatus, hst⟩ := hstart.exists_answer_describeTable
  have hfirst : (perform (.ask (.describeTable s.tableName))).run (Service.strained strain) m
      (h.mapState fun _ => (late, 0)) = ⟨.ok (.ok d), m, h.mapState fun _ => st⟩ :=
    run_perform_ask hanswer
  have hbind : run = s.checkMarker.run (Service.strained strain) m (h.mapState fun _ => st) := by
    show s.bind.run _ _ _ = _
    unfold bind
    rw [run_bind_of_ok hfirst]
    dsimp only
    unfold bindTo
    rw [hstatus]
  obtain ⟨m', h', hawait, hserved, helapsed⟩ := exists_run_awaitMarker_from
    (h := h.mapState fun _ => st) 0 hkey hstrain (Nat.zero_le _) hst ⟨hh.closesAt, rfl⟩ m
  rw [Nat.zero_add] at hawait hserved helapsed
  have hcheck := hbind.trans (run_checkMarker hawait)
  refine ⟨?_, ?_, ?_, ?_⟩
  · rw [hcheck]
    have hholds : Marker.version marker = .ok Marker.current := by
      rw [Marker.version, hversion]
    split
    · rw [Marker.check_of_version hholds]
      rfl
    · rfl
  · rw [hcheck]
    exact hserved
  · intro hlongest
    have hsame (d : Duration) (hd : d ≤ s.policy.maxDelay) : h.timer.millis d = d.ceilMillis :=
      h.timer.millis_eq d (Nat.le_trans hd hlongest)
    rw [hcheck, ← Policy.waited_congr hsame, ← Policy.strained_congr hsame]
    exact helapsed
  · intro hcalm
    exact Operation.run_mapState (Service.answer_strained_of_unstrained hcalm) s.bind m
      (h.mapState fun _ => (late, 0))

end Settings

/-! ## A sample -/

namespace Sample

/-- A service with an active table that has no items. -/
def unmarkedHost : Host Service :=
  { host with state := host.state.createActiveTable store.table ⟨5, 6⟩ }

/-- The marker that is to come. -/
def lateMarker : Item := Marker.item Marker.current 1234

/-- Settings with two retries. -/
def twice : Settings := { store.settings with maxRetries := 2 }

/-- Each read is throttled once more than the one before, as long as the budget allows. -/
def growing (k : Nat) : Nat := min k 2

/-- What binding comes to when the marker comes after so many reads. -/
def bindLate (reads : Nat) : Operation.Run (Service × Nat) Binding :=
  twice.bind.run (Service.strained growing) {}
    (unmarkedHost.mapState fun state =>
      ((state.planLateWrite store.table lateMarker reads).planThrottles (growing 0), 0))

/-- The marker is found with the third read, which is the last one. -/
theorem bind_late_marker_twice :
    (bindLate 2).outcome = .ok ⟨false, Marker.current, some 1234⟩ ∧ (bindLate 2).host.state.2 = 3 ∧
      twice.policy.maxDelay ≤ unmarkedHost.timer.longest ∧ (bindLate 2).host.elapsed = 700 ∧
      (bindLate 3).outcome = .error (.noVersionMarker store.table) ∧ (bindLate 3).host.state.2 = 3 := by
  have hfound : unmarkedHost.state.tables[twice.tableName]? =
      some ⟨TableStatus.active.text, {}, ⟨5, 6⟩, .looks 0, ∅⟩ := by
    simp [unmarkedHost, Service.createActiveTable, Service.setTable, twice, Store.table]
  have hmissing : (∅ : Items).item? Marker.key = none := by simp [Items.item?]
  have hversion : lateMarker.long? Marker.versionName = some Marker.current := by decide +kernel
  have hcreated : Marker.createdAt? lateMarker = some 1234 := by decide +kernel
  have hgrowing : ∀ k, growing k ≤ twice.maxRetries.toNat := fun k => Nat.min_le_right k 2
  have hlate (reads : Nat) := Settings.bind_late_marker (s := twice) (m := {}) (h := unmarkedHost)
    ⟨⟨rfl, rfl, rfl⟩, rfl⟩ hfound rfl hmissing (rfl : lateMarker.key = Marker.key) hversion reads
    hgrowing
  have hlongest : twice.policy.maxDelay ≤ unmarkedHost.timer.longest := by decide +kernel
  obtain ⟨hok, hserved, helapsed, -⟩ := hlate 2
  obtain ⟨herror, hserved', -, -⟩ := hlate 3
  rw [if_pos (by decide), hcreated] at hok
  rw [if_neg (by decide)] at herror
  exact ⟨hok, hserved, hlongest, (helapsed hlongest).trans (by decide +kernel), herror, hserved'⟩

end Sample

end TableTree
