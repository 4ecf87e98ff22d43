import TableTree.Ancestors
import TableTree.Proofs.Tree.Kinds

/-!
# The last entry of each path

A batch must not have two writes for one key, so of several entries of a path the last one is kept.
Storing what is kept comes to the same as storing everything.

Results:

* `Entry.mem_of_mem_keepLast`: nothing else is kept.
* `Entry.pairwise_keepLast`: there is one entry for each path.
* `Entry.keepLast_append_of_ne`: entries of different paths stay in front.
* `Items.storeAll_keepLast`: storing what is kept stores everything.
-/

namespace TableTree

namespace Entry

theorem mem_putLater {d e : Entry} {es : List Entry} (h : d ∈ e.putLater es) : d = e ∨ d ∈ es := by
  induction es with
  | nil => simpa [putLater] using h
  | cons x xs ih =>
    unfold putLater at h
    split at h
    · exact (List.mem_cons.1 h).imp id (List.mem_cons_of_mem x)
    · rcases List.mem_cons.1 h with rfl | h
      · exact .inr List.mem_cons_self
      · exact (ih h).imp id (List.mem_cons_of_mem x)

theorem exists_mem_putLater {e : Entry} {es : List Entry} {q : Path} :
    (∃ d ∈ e.putLater es, d.path = q) ↔ e.path = q ∨ ∃ d ∈ es, d.path = q := by
  induction es with
  | nil => simp [putLater]
  | cons x xs ih =>
    unfold putLater
    split
    · rename_i hx
      simp [hx]
    · simp only [List.mem_cons, exists_eq_or_imp, ih]
      exact or_left_comm

/-- Keeping the last entry of each path leaves no other entries. -/
theorem mem_of_mem_foldl_putLater {d : Entry} {es known : List Entry}
    (h : d ∈ es.foldl (fun known e => putLater e known) known) : d ∈ known ∨ d ∈ es := by
  induction es generalizing known with
  | nil => exact .inl h
  | cons e es ih =>
    rcases ih h with h | h
    · exact (mem_putLater h).elim (fun h => .inr (h ▸ List.mem_cons_self)) .inl
    · exact .inr (List.mem_cons_of_mem e h)

theorem mem_of_mem_keepLast {d : Entry} {es : List Entry} (h : d ∈ keepLast es) : d ∈ es :=
  (mem_of_mem_foldl_putLater h).resolve_left List.not_mem_nil

theorem keepLast_append (es es' : List Entry) :
    keepLast (es ++ es') = es'.foldl (fun known e => putLater e known) (keepLast es) :=
  List.foldl_append ..

/-- There is one entry for each path. -/
theorem pairwise_putLater {e : Entry} {es : List Entry}
    (h : es.Pairwise fun c d => c.path ≠ d.path) :
    (e.putLater es).Pairwise fun c d => c.path ≠ d.path := by
  induction es with
  | nil => exact List.pairwise_singleton ..
  | cons x xs ih =>
    obtain ⟨hfirst, hrest⟩ := List.pairwise_cons.1 h
    unfold putLater
    split
    · rename_i hx
      rw [hx] at hfirst
      exact List.pairwise_cons.2 ⟨hfirst, hrest⟩
    · rename_i hx
      refine List.pairwise_cons.2 ⟨?_, ih hrest⟩
      intro d hd
      rcases mem_putLater hd with rfl | hd
      · exact hx
      · exact hfirst d hd

theorem pairwise_foldl_putLater {kept : List Entry} (es : List Entry)
    (h : kept.Pairwise fun c d => c.path ≠ d.path) :
    (es.foldl (fun kept e => putLater e kept) kept).Pairwise fun c d => c.path ≠ d.path := by
  induction es generalizing kept with
  | nil => exact h
  | cons e es ih => exact ih (pairwise_putLater h)

theorem pairwise_keepLast (es : List Entry) :
    (keepLast es).Pairwise fun c d => c.path ≠ d.path :=
  pairwise_foldl_putLater es .nil

/-! ## Entries of different paths -/

theorem putLater_append_of_ne {e : Entry} {es es' : List Entry} (h : ∀ d ∈ es, d.path ≠ e.path) :
    e.putLater (es ++ es') = es ++ e.putLater es' := by
  induction es with
  | nil => rfl
  | cons d es ih =>
    rw [List.cons_append, putLater, if_neg (h d List.mem_cons_self),
      ih fun c hc => h c (List.mem_cons_of_mem d hc), List.cons_append]

/-- An entry of a new path comes last. -/
theorem putLater_of_ne {e : Entry} {es : List Entry} (h : ∀ d ∈ es, d.path ≠ e.path) :
    e.putLater es = es ++ [e] := by
  have happend : e.putLater (es ++ []) = es ++ e.putLater [] := putLater_append_of_ne h
  rwa [List.append_nil] at happend

theorem foldl_putLater_append_of_ne {es es' : List Entry} (kept : List Entry)
    (h : ∀ d ∈ es, ∀ e ∈ es', d.path ≠ e.path) :
    es'.foldl (fun kept e => putLater e kept) (es ++ kept) =
      es ++ es'.foldl (fun kept e => putLater e kept) kept := by
  induction es' generalizing kept with
  | nil => rfl
  | cons e es' ih =>
    rw [List.foldl_cons, putLater_append_of_ne fun d hd => h d hd e List.mem_cons_self,
      ih _ fun d hd c hc => h d hd c (List.mem_cons_of_mem e hc), List.foldl_cons]

/-- Entries of different paths are all kept, in their order. -/
theorem keepLast_of_pairwise {es : List Entry} (h : es.Pairwise fun c d => c.path ≠ d.path) :
    keepLast es = es := by
  -- on what is still to come, after the entries kept so far
  suffices hfold : ∀ kept, (kept ++ es).Pairwise (fun c d => c.path ≠ d.path) →
      es.foldl (fun kept e => putLater e kept) kept = kept ++ es from hfold [] h
  clear h
  intro kept h
  induction es generalizing kept with
  | nil => exact (List.append_nil kept).symm
  | cons e es ih =>
    have hne : ∀ d ∈ kept, d.path ≠ e.path := fun d hd =>
      (List.pairwise_append.1 h).2.2 d hd e List.mem_cons_self
    rw [List.foldl_cons, putLater_of_ne hne, ih (kept ++ [e]) (by simpa using h)]
    simp

/-- Entries of different paths are kept as they are in front of entries of other paths. -/
theorem keepLast_append_of_ne {es es' : List Entry} (h : es.Pairwise fun c d => c.path ≠ d.path)
    (hne : ∀ d ∈ es, ∀ e ∈ es', d.path ≠ e.path) :
    keepLast (es ++ es') = es ++ keepLast es' := by
  have hfold := foldl_putLater_append_of_ne [] hne
  rw [List.append_nil] at hfold
  rw [keepLast_append, keepLast_of_pairwise h, hfold]
  rfl

end Entry

namespace Items

variable {items : Items}

/-- An entry in the place of the one of its path is as good as one at the end. -/
theorem storeAll_putLater {e : Entry} {es : List Entry}
    (h : es.Pairwise fun c d => c.path ≠ d.path) :
    items.storeAll (e.putLater es) = (items.storeAll es).store e := by
  induction es generalizing items with
  | nil => rfl
  | cons x xs ih =>
    obtain ⟨hfirst, hrest⟩ := List.pairwise_cons.1 h
    unfold Entry.putLater
    split
    · rename_i hx
      have hne : ∀ d ∈ xs, d.path ≠ e.path := by
        intro d hd hp
        exact hfirst d hd (hx.trans hp.symm)
      rw [storeAll_cons, storeAll_cons, storeAll_store hne, store_store hx]
    · rw [storeAll_cons, storeAll_cons, ih hrest]

theorem storeAll_foldl_putLater {kept : List Entry} (es : List Entry)
    (h : kept.Pairwise fun c d => c.path ≠ d.path) :
    items.storeAll (es.foldl (fun kept e => e.putLater kept) kept) =
      (items.storeAll kept).storeAll es := by
  induction es generalizing kept with
  | nil => rfl
  | cons e es ih =>
    rw [List.foldl_cons, ih (Entry.pairwise_putLater h), storeAll_putLater h, storeAll_cons]

/-- Storing what is kept stores everything. -/
theorem storeAll_keepLast (es : List Entry) :
    items.storeAll (Entry.keepLast es) = items.storeAll es :=
  storeAll_foldl_putLater es .nil

end Items

end TableTree
