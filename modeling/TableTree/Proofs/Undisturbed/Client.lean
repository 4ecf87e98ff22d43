import TableTree.BulkWrite
import TableTree.Proofs.Undisturbed.Operation

/-!
# Trying again beside an undisturbed run

A request that is tried until it succeeds comes to what its first attempt comes to undisturbed. A
slice of writes that the service has taken in several parts comes to what it comes to when it is
taken whole: on the way, the undisturbed service is ahead by the writes that are still owed.

Results:

* `Client.transparent_retry`, `Client.exact_retry`: a request under the policy.
* `Client.transparent_writeAll`: writing in batches.
-/

namespace TableTree

open Operation

variable {α : Type}

namespace Client

variable {c : Client} {operation target : String} {idempotent : Bool}
  {attempt : Program (Except ServiceError α)}

/-! ## Trying again -/

/-- A wait that comes to its end does so undisturbed. -/
theorem transparent_pause (d : Duration) : (c.pause operation target d).Transparent := by
  intro m m' h h' hm hh _ hok
  have hd := elapsed_of_run_pause hok
  obtain ⟨hd', hafter⟩ := hh.sleep hd
  rw [run_pause hd, run_pause hd']
  exact ⟨rfl, hm, hafter⟩

/-- A request under the policy comes to what its first attempt comes to undisturbed. -/
theorem transparent_retry (hattempt : attempt.Repeatable) :
    (c.retry operation target idempotent attempt).Transparent := by
  intro m m' h h' hm hh a hok
  rcases hrun : (c.retry operation target idempotent attempt).run Service.backend m h with
    ⟨r, m₁, h₁⟩
  rw [hrun] at hok
  obtain rfl : r = .ok a := hok
  have hm₁ := remembers_retry.alike hrun
  obtain ⟨ha, hh₁⟩ := run_retryFrom (fun _ _ hk => hk.later) (fun h hh => hattempt h h' hh) hh hrun
  rw [show (c.retry operation target idempotent attempt).run Service.backend m' h' = _ from
    run_retryFrom_of_ok ha]
  exact ⟨rfl, hm₁.symm.trans hm, hh₁⟩

/-- A request about a table is tried once under any policy. -/
theorem exact_retry {r : Request} (hr : r.isControl = true) :
    (c.retry operation target idempotent (.ask r)).Exact := by
  intro m m' h h' hm hh
  have halike := hh.state.answer_control hr
  have hh₁ := hh.set halike.undisturbed
  cases hanswer : (h.state.answer r).1 with
  | ok a =>
    rw [show (c.retry operation target idempotent (.ask r)).run Service.backend m h = _ from
        run_retryFrom_of_ok hanswer,
      show (c.retry operation target idempotent (.ask r)).run Service.backend m' h' = _ from
        run_retryFrom_of_ok (halike.answer_eq.trans hanswer)]
    exact ⟨rfl, hm, hh₁⟩
  | error e =>
    have he := halike.isPermanent e hanswer
    rw [show (c.retry operation target idempotent (.ask r)).run Service.backend m h = _ from
        run_retryFrom_of_isPermanent hanswer he,
      show (c.retry operation target idempotent (.ask r)).run Service.backend m' h' = _ from
        run_retryFrom_of_isPermanent (halike.answer_eq.trans hanswer) he]
    exact ⟨rfl, hm, hh₁⟩

/-- A request that is tried once. -/
theorem transparent_once (hattempt : attempt.Repeatable) :
    (c.once operation target attempt).Transparent := by
  intro m m' h h' hm hh a hok
  have htried := hattempt h h' hh
  unfold once at hok ⊢
  rw [run_bind, run_perform] at hok ⊢
  rw [run_bind, run_perform]
  rcases hx : attempt.run Service.backend h with ⟨e | a', k⟩
  · rw [hx] at hok
    cases hok
  · rw [hx] at hok htried
    cases hok
    rw [htried.1]
    exact ⟨rfl, hm, htried.2⟩

/-! ## Writing in batches -/

variable {m m₁ : Memory} {h h₁ h' : Host Service} {writes left : List Write}

theorem remembers_resend (count : UInt32) (left : List Write) :
    (c.resend count left).Remembers := by
  -- on the waits that the policy still allows
  induction hn : c.policy.maxRetries.toNat - count.toNat using Nat.strongRecOn
    generalizing count left with
  | ind n ih =>
    rw [resend]
    split
    · exact (idle_pure _).remembers
    · refine (idle_backOff count left.length).remembers.bind fun ⟨hlt⟩ =>
        remembers_retry.bind fun left' => ?_
      have hlt' := UInt32.lt_iff_toNat_lt.1 hlt
      have hsucc := Backoff.toNat_succ_of_lt hlt
      exact ih _ (by omega) _ _ rfl

theorem remembers_writeAll (limit : Nat) (deletes : List Key) (puts : List Item) :
    (c.writeAll limit deletes puts).Remembers :=
  (Remembers.forM (fun _ => remembers_retry.bind fun left => remembers_resend 0 left) _).bind
    fun _ => (idle_pure _).remembers

/-- Sending what is owed leaves owed what was left out, and the table takes it. -/
theorem run_sendBatch_of_owes (hh : h.Beside (Service.Owes c.table writes) h')
    (hrun : (c.sendBatch writes).run Service.backend m h = ⟨.ok left, m₁, h₁⟩) :
    h'.state.TakesBatch c.table writes ∧ h₁.Beside (Service.Owes c.table left) h' := by
  have hattempt (k : Host Service) (hk : k.Beside (Service.Owes c.table writes) h') :
      Tried (fun left k => h'.state.TakesBatch c.table writes ∧
          k.Beside (Service.Owes c.table left) h') (·.Beside (Service.Owes c.table writes) h')
        ((Program.ask (.batchWrite c.table writes)).run Service.backend k) := by
    refine Program.tried_run_ask (hk.state.tried_answer.imp ?_ ?_)
    · exact fun left s hs => ⟨hs.1, hk.setLeft hs.2⟩
    · exact fun s hs => hk.setLeft hs
  exact run_retryFrom (fun _ _ hk => hk.later) hattempt hh hrun

/-- Once all that is owed has been sent, nothing is owed. -/
theorem run_resend_of_owes {count : UInt32} (hh : h.Beside (Service.Owes c.table left) h')
    (hrun : (c.resend count left).run Service.backend m h = ⟨.ok (), m₁, h₁⟩) :
    h₁.Undisturbed h' := by
  -- on the waits that the policy still allows
  induction hn : c.policy.maxRetries.toNat - count.toNat using Nat.strongRecOn
    generalizing count left m h with
  | ind n ih =>
    rw [resend] at hrun
    split at hrun
    · rename_i hnil
      subst hnil
      cases hrun
      exact hh.imp (Service.owes_nil.1 hh.state)
    · obtain ⟨⟨hlt⟩, m₂, h₂, hback, heq⟩ := exists_run_of_run_bind (congrArg (·.outcome) hrun)
      rw [heq] at hrun
      obtain ⟨left', m₃, h₃, hsend, heq⟩ := exists_run_of_run_bind (congrArg (·.outcome) hrun)
      rw [heq] at hrun
      have hh₂ := hh.later ((idle_backOff count left.length).later hback)
      obtain ⟨-, hh₃⟩ := run_sendBatch_of_owes hh₂ hsend
      have hlt' := UInt32.lt_iff_toNat_lt.1 hlt
      have hsucc := Backoff.toNat_succ_of_lt hlt
      exact ih _ (by omega) hh₃ hrun rfl

/-- A slice that was taken in several parts is taken whole undisturbed. -/
theorem transparent_writeSlice (writes : List Write) : (c.writeSlice writes).Transparent := by
  intro m m' h h' hm hh _ hok
  unfold writeSlice at hok ⊢
  obtain ⟨left, m₁, h₁, hsend, heq⟩ := exists_run_of_run_bind hok
  rw [heq] at hok ⊢
  -- the undisturbed service is ahead by the whole slice
  have howes : h.Beside (Service.Owes c.table writes)
      { h' with state := h'.state.mapItems c.table (·.applyAll writes) } :=
    hh.setRight (hh.state.mapItems c.table _)
  have hm₁ : m.Alike m₁ := remembers_retry.alike hsend
  obtain ⟨htakes, hh₁⟩ := run_sendBatch_of_owes howes hsend
  obtain ⟨hanswer, hcore, hplan⟩ := Service.answer_batchWrite_of_plan_eq hh.state.plan_eq
    (htakes.of_isSome_items? (Service.isSome_items?_mapItems ..).symm)
  have hsend' : (c.sendBatch writes).run Service.backend m' h' = ⟨.ok [], m', _⟩ :=
    run_retryFrom_of_ok hanswer
  rw [run_bind_of_ok hsend']
  have hh₁' : h₁.Beside (Service.Owes c.table left)
      { h' with state := (h'.state.answer (.batchWrite c.table writes)).2 } :=
    hh₁.setRight (hh₁.state.of_core_right hcore hplan)
  rcases hresend : (c.resend 0 left).run Service.backend m₁ h₁ with ⟨r, m₂, h₂⟩
  rw [hresend] at hok
  obtain rfl : r = .ok () := hok
  have hm₂ := (remembers_resend 0 left).alike hresend
  have hh₂ := run_resend_of_owes hh₁' hresend
  rw [show c.resend 0 [] = pure () by rw [resend, if_pos rfl]]
  exact ⟨rfl, (hm₁.trans hm₂).symm.trans hm, hh₂⟩

/-- Faults do not show in writing in batches unless they make it fail. -/
theorem transparent_writeAll (limit : Nat) (deletes : List Key) (puts : List Item) :
    (c.writeAll limit deletes puts).Transparent :=
  (transparent_forM transparent_writeSlice _).bind fun _ => transparent_pure _

end Client

end TableTree
