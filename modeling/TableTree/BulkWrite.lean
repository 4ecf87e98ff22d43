import TableTree.Client
/-!
# Writes in batches

A list of writes goes to the service in slices of at most a given length. A slice that was taken only
in part is followed by the rest of it, after a wait, before the next slice goes out.

Results:

* `slices`: a list cut into slices; `slices_flatten` says that nothing is lost or moved.
* `Client.writeAll`: the writes of a list, slice by slice.
-/

namespace TableTree

variable {α : Type}

/-- A list cut into slices of `limit` elements, the last one shorter. A limit of zero counts as
one. -/
def slices (limit : Nat) (xs : List α) : List (List α) :=
  if xs = [] then []
  else xs.take (max limit 1) :: slices limit (xs.drop (max limit 1))
termination_by xs.length
decreasing_by
  rename_i h
  have := List.length_pos_iff.2 h
  simp only [List.length_drop]
  omega

@[simp] theorem slices_nil (limit : Nat) : slices limit ([] : List α) = [] := by
  unfold slices
  simp

/-- The slices of a list, put together, are the list. -/
theorem slices_flatten (limit : Nat) (xs : List α) : (slices limit xs).flatten = xs := by
  fun_induction slices limit xs with
  | case1 => simp_all
  | case2 xs h ih => simp [ih]

/-- A slice is neither empty nor longer than the limit. -/
theorem length_of_mem_slices {limit : Nat} {xs s : List α} (h : s ∈ slices limit xs) :
    0 < s.length ∧ s.length ≤ max limit 1 := by
  fun_induction slices limit xs with
  | case1 => simp at h
  | case2 xs hx ih =>
    rcases List.mem_cons.1 h with rfl | h
    · have := List.length_pos_iff.2 hx
      simp only [List.length_take]
      omega
    · exact ih h

namespace Client

open Operation

/-- Sends one batch under the policy and gives what was left out of it. -/
def sendBatch (c : Client) (writes : List Write) : Operation (List Write) :=
  c.retry "batchWrite" c.table true (.ask (.batchWrite c.table writes))

/-- Sends what was left out of a batch until nothing is. -/
def resend (c : Client) (count : UInt32) (left : List Write) : Operation Unit :=
  if left = [] then pure ()
  else do
    let ⟨_h⟩ ← c.backOff "batchWrite" c.table count left.length
    let left ← c.sendBatch left
    c.resend (count + 1) left
termination_by c.policy.maxRetries.toNat - count.toNat
decreasing_by
  rw [Backoff.toNat_succ_of_lt _h]
  rw [UInt32.lt_iff_toNat_lt] at _h
  omega

/-- Sends one slice and whatever is left out of it. -/
def writeSlice (c : Client) (writes : List Write) : Operation Unit := do
  c.resend 0 (← c.sendBatch writes)

/-- Deletes the items of keys and stores items, in this order, and gives the number of writes. -/
def writeAll (c : Client) (limit : Nat) (deletes : List Key) (puts : List Item) :
    Operation Nat := do
  let writes := deletes.map Write.delete ++ puts.map Write.put
  (slices limit writes).forM c.writeSlice
  pure writes.length

end Client

end TableTree
