import Mathlib.Data.List.Basic
import Mathlib.Data.List.Induction
import TableTree.Proofs.Commit
import TableTree.Proofs.Tree.Completion

/-!
# The order of the entries that are kept

Of several entries of a path the last one is kept, at the place where the path first comes. So the
paths come in the order of their first entries, and a directory that has come before what lies below
it still does, also where a later entry takes its place.

Results:

* `Entry.putLater_of_mem`: the place of an entry whose path is known.
* `Entry.map_path_putLater`, `Entry.last?_putLater`: what one entry changes.
* `Entry.map_path_keepLast`, `Entry.last?_keepLast`: the paths that are kept, and their entries.
* `Items.storeInOrder_keepLast`: storing what is kept stores everything, or fails alike.
* `Entry.topDown_keepLast_iff`: ancestors stay in front.
* `Entry.keepLast_characterised`: all of this together.
-/

namespace TableTree

/-! ## Lists without their repetitions -/

section Distinct

variable {α : Type} [BEq α] [LawfulBEq α]

theorem eraseDups_concat (l : List α) (a : α) :
    (l ++ [a]).eraseDups = if a ∈ l then l.eraseDups else l.eraseDups ++ [a] := by
  rw [List.eraseDups_append, List.removeAll]
  split
  · rename_i h
    simp [h]
  · rename_i h
    simp [h, List.eraseDups_cons]

/-- What is searched for is found in its first place. -/
theorem find?_eraseDups (P : α → Bool) (l : List α) : l.eraseDups.find? P = l.find? P := by
  induction l using List.reverseRecOn with
  | nil => rfl
  | append_singleton l a ih =>
    rw [eraseDups_concat, List.find?_append, ← ih]
    split
    · rename_i h
      cases hl : l.eraseDups.find? P with
      | some b => rfl
      | none =>
        have ha := List.find?_eq_none.1 hl a (List.mem_eraseDups.2 h)
        simp [ha]
    · rw [List.find?_append]

/-- The order of first places is kept. -/
theorem idxOf_eraseDups_lt_iff {l : List α} {a b : α} (ha : a ∈ l) (hb : b ∈ l) :
    l.eraseDups.idxOf a < l.eraseDups.idxOf b ↔ l.idxOf a < l.idxOf b := by
  induction l using List.reverseRecOn with
  | nil => exact absurd ha List.not_mem_nil
  | append_singleton l c ih =>
    rw [eraseDups_concat]
    by_cases hc : c ∈ l
    · have hmem {x : α} (hx : x ∈ l ++ [c]) : x ∈ l := by
        rcases List.mem_append.1 hx with hx | hx
        · exact hx
        · exact List.mem_singleton.1 hx ▸ hc
      rw [if_pos hc, List.idxOf_append, List.idxOf_append, if_pos (hmem ha), if_pos (hmem hb)]
      exact ih (hmem ha) (hmem hb)
    · -- the new member is last in both lists
      have hnew {x : α} (hx : x ∈ l ++ [c]) (hxl : x ∉ l) : x = c :=
        List.mem_singleton.1 ((List.mem_append.1 hx).resolve_left hxl)
      simp only [if_neg hc, List.idxOf_append, List.mem_eraseDups]
      by_cases hal : a ∈ l <;> by_cases hbl : b ∈ l
      · rw [if_pos hal, if_pos hal, if_pos hbl, if_pos hbl]
        exact ih hal hbl
      · have hlt := List.idxOf_lt_length_of_mem hal
        have hlt' := List.idxOf_lt_length_of_mem (List.mem_eraseDups.2 hal)
        rw [if_pos hal, if_pos hal, if_neg hbl, if_neg hbl]
        omega
      · have hlt := List.idxOf_lt_length_of_mem hbl
        have hlt' := List.idxOf_lt_length_of_mem (List.mem_eraseDups.2 hbl)
        rw [if_neg hal, if_neg hal, if_pos hbl, if_pos hbl]
        omega
      · rw [hnew ha hal, hnew hb hbl]
        simp

end Distinct

namespace Entry

/-! ## One entry more -/

/-- An entry of a known path is written into the place of the path. -/
theorem putLater_of_mem {e : Entry} {es : List Entry} (h : e.path ∈ es.map Entry.path) :
    e.putLater es = es.set ((es.map Entry.path).idxOf e.path) e := by
  induction es with
  | nil => exact absurd h List.not_mem_nil
  | cons d ds ih =>
    unfold putLater
    by_cases hd : d.path = e.path
    · rw [if_pos hd, List.map_cons, hd, List.idxOf_cons_self, List.set_cons_zero]
    · have hds : e.path ∈ ds.map Entry.path := (List.mem_cons.1 h).resolve_left (Ne.symm hd)
      rw [if_neg hd, ih hds, List.map_cons, List.idxOf_cons_ne _ hd, List.set_cons_succ]

/-- The paths after an entry is put in. -/
theorem map_path_putLater (e : Entry) (es : List Entry) :
    (e.putLater es).map Entry.path =
      if e.path ∈ es.map Entry.path then es.map Entry.path else es.map Entry.path ++ [e.path] := by
  split
  · rename_i h
    have hplace := List.idxOf_lt_length_of_mem h
    calc (e.putLater es).map Entry.path
        = (es.map Entry.path).set ((es.map Entry.path).idxOf e.path) e.path := by
          rw [putLater_of_mem h, List.map_set]
      _ = (es.map Entry.path).set ((es.map Entry.path).idxOf e.path)
            (es.map Entry.path)[(es.map Entry.path).idxOf e.path] := by
          rw [List.getElem_idxOf hplace]
      _ = es.map Entry.path := List.set_getElem_self hplace
  · rename_i h
    have hne : ∀ d ∈ es, d.path ≠ e.path := fun d hd hp => h (hp ▸ List.mem_map_of_mem hd)
    rw [putLater_of_ne hne, List.map_append]
    rfl

/-- The last entries after an entry is put in. -/
theorem last?_putLater {e : Entry} {es : List Entry} (h : es.Pairwise fun c d => c.path ≠ d.path)
    (p : Path) : last? (e.putLater es) p = if e.path = p then some e else last? es p := by
  induction es with
  | nil => simp [putLater, last?_cons]
  | cons d ds ih =>
    obtain ⟨hd, hds⟩ := List.pairwise_cons.1 h
    unfold putLater
    by_cases hde : d.path = e.path
    · rw [if_pos hde, last?_cons, last?_cons, hde]
      by_cases hp : e.path = p
      · have hnone : last? ds p = none :=
          last?_eq_none_iff.2 fun x hx hxp => hd x hx ((hde.trans hp).trans hxp.symm)
        rw [hnone, if_pos hp, Option.none_or, if_pos hp]
      · rw [if_neg hp, if_neg hp, if_neg hp]
    · rw [if_neg hde, last?_cons, ih hds, last?_cons]
      split
      · rfl
      · rfl

theorem last?_concat (es : List Entry) (e : Entry) (p : Path) :
    last? (es ++ [e]) p = if e.path = p then some e else last? es p := by
  rw [last?, List.reverse_concat, List.find?_cons]
  by_cases h : e.path = p
  · simp [h]
  · simp [h, last?]

theorem keepLast_concat (es : List Entry) (e : Entry) :
    keepLast (es ++ [e]) = e.putLater (keepLast es) :=
  keepLast_append es [e]

/-! ## What is kept -/

/-- Each path is kept once, in the order of the first entries. -/
theorem map_path_keepLast (es : List Entry) :
    (keepLast es).map Entry.path = (es.map Entry.path).eraseDups := by
  induction es using List.reverseRecOn with
  | nil => rfl
  | append_singleton es e ih =>
    rw [keepLast_concat, map_path_putLater, ih, List.map_append]
    simp only [List.mem_eraseDups]
    exact (eraseDups_concat _ _).symm

/-- Each path keeps its last entry. -/
theorem last?_keepLast (es : List Entry) (p : Path) : last? (keepLast es) p = last? es p := by
  induction es using List.reverseRecOn with
  | nil => rfl
  | append_singleton es e ih =>
    rw [keepLast_concat, last?_putLater (pairwise_keepLast es), ih, last?_concat]

theorem last?_of_mem_keepLast {es : List Entry} {d : Entry} (h : d ∈ keepLast es) :
    last? es d.path = some d := by
  rw [← last?_keepLast, last?_of_pairwise (pairwise_keepLast es) h]

/-! ## Ancestors in front -/

/-- Whether each path of a list first comes after the other paths of the list that it lies under. -/
def TopDown (es : List Entry) : Prop :=
  ∀ p ∈ es.map Entry.path, ∀ q ∈ es.map Entry.path, p.isUnder q = true → q ≠ p →
    (es.map Entry.path).idxOf q < (es.map Entry.path).idxOf p

instance (es : List Entry) : Decidable (TopDown es) :=
  inferInstanceAs (Decidable (∀ p ∈ es.map Entry.path, ∀ q ∈ es.map Entry.path, _ → _ → _))

/-- Ancestors come first among what is kept if they did among the given entries. -/
theorem topDown_keepLast_iff (es : List Entry) : TopDown (keepLast es) ↔ TopDown es := by
  unfold TopDown
  rw [map_path_keepLast]
  simp only [List.mem_eraseDups]
  refine forall₂_congr fun p hp => forall₂_congr fun q hq => ?_
  rw [idxOf_eraseDups_lt_iff hq hp]

/-! ## Storing -/

/-- The first root in a list of entries has no item. -/
theorem items_eq_error {es : List Entry} {p : Path}
    (h : (es.map Entry.path).find? Path.isRoot = some p) : Entry.items es = .error (.rootKey p) := by
  induction es with
  | nil => cases h
  | cons e es ih =>
    rw [List.map_cons, List.find?_cons] at h
    rw [items, List.mapM_cons]
    cases hr : e.path.isRoot with
    | true =>
      rw [hr] at h
      cases h
      rw [item, Path.key, Path.key?_eq_none_iff.2 hr]
      rfl
    | false =>
      rw [hr] at h
      obtain ⟨key, hkey⟩ := Path.exists_key?_of_isRoot hr
      have hes : es.mapM item = .error (.rootKey p) := ih h
      rw [item_of_key? hkey, hes]
      rfl

end Entry

namespace Items

/-- The items after the items of entries are written in their order, or the fault of the first root
among the entries. -/
def storeInOrder (items : Items) (es : List Entry) : Except PathFault Items :=
  (Entry.items es).map fun stored => items.applyAll (stored.map .put)

theorem storeInOrder_eq_ok {es : List Entry} (h : ∀ e ∈ es, e.path.isRoot = false) (items : Items) :
    items.storeInOrder es = .ok (items.storeAll es) := by
  rw [storeInOrder, Entry.items_eq_ok h, ← applyAll_writes]
  rfl

/-- Storing what is kept stores everything, or fails at the same root. -/
theorem storeInOrder_keepLast (items : Items) (es : List Entry) :
    items.storeInOrder (Entry.keepLast es) = items.storeInOrder es := by
  cases h : (es.map Entry.path).find? Path.isRoot with
  | some p =>
    have hkept : ((Entry.keepLast es).map Entry.path).find? Path.isRoot = some p := by
      rw [Entry.map_path_keepLast, find?_eraseDups, h]
    rw [storeInOrder, storeInOrder, Entry.items_eq_error h, Entry.items_eq_error hkept]
  | none =>
    have hes : ∀ e ∈ es, e.path.isRoot = false := fun e he =>
      eq_false_of_ne_true (List.find?_eq_none.1 h e.path (List.mem_map_of_mem he))
    rw [storeInOrder_eq_ok hes, storeInOrder_eq_ok fun e he => hes e (Entry.mem_of_mem_keepLast he),
      storeAll_keepLast]

end Items

/-- **Keeping the last entries.** Whatever list is given, with whatever entries twice, deleted or at
roots, each of its paths is kept once, in the order in which the paths first come, with the last entry
of the path. Storing what is kept in order leaves the same items as storing the list in order, or
fails at the same root. Among what is kept, the paths come after those that they lie under exactly if
they first come so in the list. -/
theorem Entry.keepLast_characterised (es : List Entry) :
    (keepLast es).map Entry.path = (es.map Entry.path).eraseDups ∧
    (∀ d ∈ keepLast es, last? es d.path = some d) ∧
    (∀ items : Items, items.storeInOrder (keepLast es) = items.storeInOrder es) ∧
    (TopDown (keepLast es) ↔ TopDown es) :=
  ⟨map_path_keepLast es, fun _ => last?_of_mem_keepLast,
    fun items => items.storeInOrder_keepLast es, topDown_keepLast_iff es⟩

namespace Sample

/-- A directory with a file in it. Then the file is given with another length, and the directory is
given as deleted. -/
def rewritten : List Entry :=
  [.directory directory "o", .file file 1 2 3 "o", .file file 4 5 6 "o", .tombstone directory 7]

/-- The tombstone takes the place of the directory, and so still comes before the file. -/
theorem keepLast_characterised_rewritten :
    Entry.TopDown rewritten ∧
    Entry.keepLast rewritten = [.tombstone directory 7, .file file 4 5 6 "o"] ∧
    Entry.last? rewritten directory = some (.tombstone directory 7) ∧
    Entry.TopDown (Entry.keepLast rewritten) := by
  obtain ⟨-, hlast, -, horder⟩ := Entry.keepLast_characterised rewritten
  have htop : Entry.TopDown rewritten := by decide +kernel
  have hkept : Entry.keepLast rewritten = [.tombstone directory 7, .file file 4 5 6 "o"] := by
    decide +kernel
  have htombstone : Entry.tombstone directory 7 ∈ Entry.keepLast rewritten :=
    hkept ▸ List.mem_cons_self
  exact ⟨htop, hkept, hlast _ htombstone, horder.2 htop⟩

end Sample

end TableTree
