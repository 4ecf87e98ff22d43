import Mathlib.Data.List.Sort
import Mathlib.Data.List.TakeWhile
import TableTree.Proofs.Path.Codec
import TableTree.Proofs.Undisturbed.Service
import TableTree.Proofs.Walk.Snapshot
import TableTree.Service.Control

/-!
# Requests about one bucket

Several buckets share a table. The partitions of a bucket are told by their text: a slash and the
bucket, then nothing, or a slash and whatever follows. Services that agree on the items of a bucket,
and on what is to go wrong, answer a request about these items alike, and agree again. No other item
is changed.

Results:

* `Bucket.Owns`, `Bucket.eq_of_owns`: the partitions of a bucket; no two buckets share one.
* `Bucket.owns_partition`: the partition of a path belongs to its bucket.
* `Service.AgreeIn`, `Service.AgreeIn.answer`: services that agree on a bucket, and their answers.
* `Service.SameOutside`, `Service.sameOutside_answer`: what a request leaves alone.
-/

namespace TableTree

/-! ## Partitions -/

/-- Whether a partition belongs to a bucket. -/
def Bucket.Owns (b : Bucket) (partition : String) : Prop :=
  partition = "/" ++ b.val ∨ ("/" ++ b.val ++ "/").toList <+: partition.toList

instance (b : Bucket) (partition : String) : Decidable (b.Owns partition) :=
  inferInstanceAs (Decidable (_ ∨ _))

/-- Whether a key belongs to a bucket. -/
def Key.IsIn (key : Key) (b : Bucket) : Prop := b.Owns key.parent

instance (key : Key) (b : Bucket) : Decidable (key.IsIn b) :=
  inferInstanceAs (Decidable (b.Owns key.parent))

namespace Bucket

variable {b b' : Bucket} {partition : String}

/-- A partition has its bucket between its first slash and the next. -/
theorem takeWhile_of_owns (h : b.Owns partition) :
    (partition.toList.drop 1).takeWhile (· ≠ '/') = b.val.toList := by
  have hfree : ∀ c ∈ b.val.toList, decide (c ≠ '/') = true := by
    intro c hc
    refine decide_eq_true ?_
    rintro rfl
    exact b.property.2 hc
  rcases h with rfl | ⟨rest, hrest⟩
  · have hlist : ("/" ++ b.val).toList.drop 1 = b.val.toList := by simp
    rw [hlist]
    exact List.takeWhile_eq_self_iff.2 hfree
  · have hlist : partition.toList.drop 1 = b.val.toList ++ '/' :: rest := by
      rw [← hrest]
      simp
    rw [hlist, List.takeWhile_append_of_pos hfree, List.takeWhile_cons_of_neg (by simp),
      List.append_nil]

/-- No partition belongs to two buckets, also where one is the beginning of the other. -/
theorem eq_of_owns (h : b.Owns partition) (h' : b'.Owns partition) : b = b' := by
  have htext : b.val.toList = b'.val.toList :=
    (takeWhile_of_owns h).symm.trans (takeWhile_of_owns h')
  exact Subtype.ext (String.toList_injective htext)

/-- A key of a bucket is in no other bucket. -/
theorem not_isIn_of_ne {key : Key} (h : key.IsIn b') (hne : b' ≠ b) : ¬ key.IsIn b :=
  fun h' => hne (eq_of_owns h h')

/-- The partition of a path belongs to the bucket of the path. -/
theorem owns_partition (p : Path) : p.bucket.Owns p.partition := by
  cases hnames : p.names with
  | nil =>
    left
    rw [Path.partition, hnames]
    simp
  | cons name names =>
    right
    refine ⟨['/'].intercalate ((name :: names).map String.toList), ?_⟩
    rw [p.toList_partition, hnames]
    simp only [List.map_cons, List.intercalate_cons_cons]
    simp

end Bucket

/-- The key of a path belongs to the bucket of the path. -/
theorem Path.isIn_of_key? {p : Path} {key : Key} (h : p.key? = some key) : key.IsIn p.bucket := by
  obtain ⟨q, hq, rfl⟩ := Option.map_eq_some_iff.1 h
  obtain ⟨s, rfl⟩ := Path.parent?_eq_some_iff.1 hq
  exact Bucket.owns_partition q

/-! ## Items -/

/-- Two tables hold the same items of a bucket. -/
def Items.AgreeIn (b : Bucket) (items items' : Items) : Prop :=
  ∀ key : Key, key.IsIn b → items'.item? key = items.item? key

namespace Items

variable {b : Bucket} {items items' : Items}

theorem AgreeIn.apply (h : items.AgreeIn b items') (w : Write) :
    (items.apply w).AgreeIn b (items'.apply w) := by
  intro key hkey
  rw [item?_apply, item?_apply, h key hkey]

theorem AgreeIn.applyAll (h : items.AgreeIn b items') (ws : List Write) :
    (items.applyAll ws).AgreeIn b (items'.applyAll ws) := by
  induction ws generalizing items items' with
  | nil => exact h
  | cons w ws ih => exact ih (h.apply w)

/-- A partition of the bucket holds the same items in the same order. -/
theorem AgreeIn.filter_all (h : items.AgreeIn b items') {partition : String}
    (hpartition : b.Owns partition) :
    (items'.all.filter fun item => item.key.parent = partition) =
      items.all.filter fun item => item.key.parent = partition := by
  let before (x y : Item) : Prop := compare x.key y.key = .lt
  have hirrefl : Std.Irrefl before := ⟨fun x hx => by
    have hself : compare x.key x.key = .eq := Std.ReflCmp.compare_self
    cases hself.symm.trans hx⟩
  have hantisymm : Std.Antisymm before :=
    ⟨fun x y hx hy => absurd hy (Std.OrientedCmp.not_lt_of_lt hx)⟩
  have hsorted (xs : Items) :
      (xs.all.filter fun item => item.key.parent = partition).Pairwise before :=
    xs.pairwise_all.filter _
  refine (hsorted items').eq_of_mem_iff (hsorted items) fun item => ?_
  simp only [List.mem_filter, mem_all, decide_eq_true_eq]
  refine and_congr_left fun hparent => ?_
  have hkey : item.key.IsIn b := by
    rw [Key.IsIn, hparent]
    exact hpartition
  rw [h item.key hkey]

/-- Writes of the keys of a bucket leave the items of other keys alone. -/
theorem item?_applyAll_of_not_isIn {ws : List Write} (hws : ∀ w ∈ ws, w.key.IsIn b) {key : Key}
    (hkey : ¬ key.IsIn b) : (items.applyAll ws).item? key = items.item? key := by
  refine item?_applyAll_of_not_mem (fun hmem => ?_) items
  obtain ⟨w, hw, rfl⟩ := List.mem_map.1 hmem
  exact hkey (hws w hw)

end Items

/-! ## Requests -/

/-- Whether a request is about items of a bucket in the table `t`. -/
def Request.IsIn (t : String) (b : Bucket) : Request → Prop
  | .getItem name key | .deleteItem name key => name = t ∧ key.IsIn b
  | .putItem name item => name = t ∧ item.key.IsIn b
  | .query name partition _ => name = t ∧ b.Owns partition
  | .batchWrite name writes => name = t ∧ ∀ w ∈ writes, w.key.IsIn b
  | _ => False

theorem Request.IsIn.table_eq {t : String} {b : Bucket} {r : Request} (h : r.IsIn t b) :
    r.table = t := by
  cases r with
  | getItem name key => exact h.1
  | putItem name item => exact h.1
  | deleteItem name key => exact h.1
  | query name partition filter => exact h.1
  | batchWrite name writes => exact h.1
  | _ => exact h.elim

namespace Service

variable {t : String} {b : Bucket} {s s' : Service}

/-- Two services agree on a bucket in the table `t`: both hold the table with the same items of the
bucket, the same is to go wrong with requests for items, the same calls were made, and nobody else is
going to write. -/
structure AgreeIn (t : String) (b : Bucket) (s s' : Service) : Prop where
  throttles_eq : s'.plan.throttles = s.plan.throttles
  faults_eq : s'.plan.faults = s.plan.faults
  leftovers_eq : s'.plan.leftovers = s.plan.leftovers
  counts_eq : s'.counts = s.counts
  isCalm : s.IsCalm
  isCalm' : s'.IsCalm
  items : ∃ items items', s.items? t = some items ∧ s'.items? t = some items' ∧
    items.AgreeIn b items'

theorem counts_mapItems (s : Service) (name : String) (f : Items → Items) :
    (s.mapItems name f).counts = s.counts := by
  unfold mapItems
  split <;> rfl

/-- An item outside the bucket does not matter. -/
theorem agreeIn_putRaw {items : Items} {item : Item} (hs : s.IsCalm) (hitems : s.items? t = some items)
    (hitem : ¬ item.key.IsIn b) : s.AgreeIn t b (s.putRaw t item) := by
  have hplan : (s.putRaw t item).plan = s.plan := plan_mapItems s t _
  refine ⟨by rw [hplan], by rw [hplan], by rw [hplan], counts_mapItems s t _, hs,
    isCalm_mapItems hs t _, items, items.apply (.put item), hitems, ?_, fun key hkey => ?_⟩
  · rw [putRaw, items?_mapItems, if_pos rfl, hitems]
    rfl
  · have hne : (Write.put item).key ≠ key := by
      rintro rfl
      exact hitem hkey
    rw [Items.item?_apply, if_neg hne]

namespace AgreeIn

theorem count (h : s.AgreeIn t b s') (r : Request) : (s.count r).AgreeIn t b (s'.count r) := by
  have hcounts : (s'.count r).counts = (s.count r).counts := by
    cases r <;> simp only [Service.count, h.counts_eq]
  cases r <;> exact { h with counts_eq := hcounts }

/-- The same failure comes next. -/
theorem takeFault (h : s.AgreeIn t b s') :
    s'.takeFault.1 = s.takeFault.1 ∧ s.takeFault.2.AgreeIn t b s'.takeFault.2 := by
  unfold Service.takeFault
  rw [h.throttles_eq, h.faults_eq]
  split
  · exact ⟨rfl, { h with throttles_eq := rfl }⟩
  split
  · exact ⟨rfl, { h with faults_eq := rfl }⟩
  · exact ⟨rfl, h⟩

/-- Services that agree are answered alike, whether the plan makes them fail or not. -/
theorem unlessFault {α : Type} (h : s.AgreeIn t b s')
    {serve : Service → Except ServiceError α × Service}
    (hserve : ∀ s s', s.AgreeIn t b s' →
      (serve s').1 = (serve s).1 ∧ (serve s).2.AgreeIn t b (serve s').2) :
    (s'.unlessFault serve).1 = (s.unlessFault serve).1 ∧
      (s.unlessFault serve).2.AgreeIn t b (s'.unlessFault serve).2 := by
  obtain ⟨heq, hagree⟩ := h.takeFault
  unfold Service.unlessFault
  generalize s.takeFault = taken at heq hagree ⊢
  generalize s'.takeFault = taken' at heq hagree ⊢
  obtain ⟨fault, k⟩ := taken
  obtain ⟨fault', k'⟩ := taken'
  obtain rfl : fault' = fault := heq
  cases fault' with
  | none => exact hserve k k' hagree
  | some e => exact ⟨rfl, hagree⟩

theorem readItems {α : Type} (h : s.AgreeIn t b s') {f : Items → α}
    (hf : ∀ items items', items.AgreeIn b items' → f items' = f items) :
    s'.readItems t f = s.readItems t f := by
  obtain ⟨items, items', hitems, hitems', hagree⟩ := h.items
  simp only [Service.readItems, hitems, hitems', hf items items' hagree]

theorem mapItems (h : s.AgreeIn t b s') {f : Items → Items}
    (hf : ∀ items items', items.AgreeIn b items' → (f items).AgreeIn b (f items')) :
    (s.mapItems t f).AgreeIn t b (s'.mapItems t f) := by
  obtain ⟨items, items', hitems, hitems', hagree⟩ := h.items
  refine ⟨?_, ?_, ?_, ?_, isCalm_mapItems h.isCalm t f, isCalm_mapItems h.isCalm' t f,
    f items, f items', ?_, ?_, hf items items' hagree⟩
  · rw [plan_mapItems, plan_mapItems, h.throttles_eq]
  · rw [plan_mapItems, plan_mapItems, h.faults_eq]
  · rw [plan_mapItems, plan_mapItems, h.leftovers_eq]
  · rw [counts_mapItems, counts_mapItems, h.counts_eq]
  · rw [items?_mapItems, if_pos rfl, hitems]
    rfl
  · rw [items?_mapItems, if_pos rfl, hitems']
    rfl

theorem writeItems (h : s.AgreeIn t b s') {f : Items → Items}
    (hf : ∀ items items', items.AgreeIn b items' → (f items).AgreeIn b (f items')) :
    (s'.writeItems t f).1 = (s.writeItems t f).1 ∧
      (s.writeItems t f).2.AgreeIn t b (s'.writeItems t f).2 := by
  obtain ⟨items, items', hitems, hitems', -⟩ := h.items
  simp only [Service.writeItems, hitems, hitems']
  exact ⟨trivial, h.mapItems hf⟩

/-- The same number of writes is left out of a batch. -/
theorem takeLeftover (h : s.AgreeIn t b s') (call : Nat) :
    (s'.takeLeftover call).1 = (s.takeLeftover call).1 ∧
      (s.takeLeftover call).2.AgreeIn t b (s'.takeLeftover call).2 := by
  unfold Service.takeLeftover
  rw [h.leftovers_eq]
  exact ⟨rfl, { h with leftovers_eq := rfl }⟩

theorem batchWrite (h : s.AgreeIn t b s') (call : Nat) (writes : List Write) :
    (s'.batchWrite call t writes).1 = (s.batchWrite call t writes).1 ∧
      (s.batchWrite call t writes).2.AgreeIn t b (s'.batchWrite call t writes).2 := by
  unfold Service.batchWrite
  split
  · exact ⟨rfl, h⟩
  split
  · exact ⟨rfl, h⟩
  obtain ⟨hleftover, hagree⟩ := h.takeLeftover call
  have hwritten := hagree.writeItems fun _ _ hitems =>
    hitems.applyAll (writes.take (writes.length - (s.takeLeftover call).1))
  dsimp only
  rw [hleftover]
  generalize (s.takeLeftover call).2.writeItems t _ = result at hwritten ⊢
  generalize (s'.takeLeftover call).2.writeItems t _ = result' at hwritten ⊢
  obtain ⟨answer, k⟩ := result
  obtain ⟨answer', k'⟩ := result'
  obtain ⟨heq, hafter⟩ := hwritten
  obtain rfl : answer' = answer := heq
  cases answer' with
  | ok _ => exact ⟨rfl, hafter⟩
  | error e => exact ⟨rfl, hafter⟩

/-- Services that agree on a bucket answer a request about its items alike, and agree again. -/
theorem answer (h : s.AgreeIn t b s') {r : Request} (hr : r.IsIn t b) :
    (s'.answer r).1 = (s.answer r).1 ∧ (s.answer r).2.AgreeIn t b (s'.answer r).2 := by
  have hcount := h.count r
  cases r with
  | getItem name key =>
    obtain ⟨rfl, hkey⟩ := hr
    refine hcount.unlessFault fun s s' h => ⟨h.readItems fun _ _ hitems => hitems key hkey, ?_⟩
    rw [getItem, getItem, serveRead_eq h.isCalm, serveRead_eq h.isCalm']
    exact h
  | putItem name item =>
    obtain ⟨rfl, -⟩ := hr
    exact hcount.unlessFault fun s s' h => h.writeItems fun _ _ hitems => hitems.apply (.put item)
  | deleteItem name key =>
    obtain ⟨rfl, -⟩ := hr
    exact hcount.unlessFault fun s s' h => h.writeItems fun _ _ hitems => hitems.apply (.delete key)
  | query name partition filter =>
    obtain ⟨rfl, hpartition⟩ := hr
    refine hcount.unlessFault fun s s' h => ⟨h.readItems fun items items' hitems => ?_, h⟩
    rw [hitems.filter_all hpartition]
  | batchWrite name writes =>
    obtain ⟨rfl, -⟩ := hr
    refine hcount.unlessFault fun s s' h => ?_
    rw [h.counts_eq]
    exact h.batchWrite _ writes
  | _ => exact hr.elim

end AgreeIn

/-- No item has changed but items of the bucket in the table `t`. -/
def SameOutside (t : String) (b : Bucket) (s s' : Service) : Prop :=
  ∀ name key, ¬ (name = t ∧ key.IsIn b) → s'.getRaw name key = s.getRaw name key

theorem SameOutside.refl (t : String) (b : Bucket) (s : Service) : s.SameOutside t b s :=
  fun _ _ _ => rfl

theorem SameOutside.trans {s'' : Service} (h : s.SameOutside t b s') (h' : s'.SameOutside t b s'') :
    s.SameOutside t b s'' :=
  fun name key hkey => (h' name key hkey).trans (h name key hkey)

/-- A request about items of a bucket that is served leaves the other items of its table alone. -/
theorem item?_of_served {r : Request} (hr : r.IsIn t b) {answer : r.Answer} {st st' : Option Items}
    (h : Served r st answer st') {key : Key} (hkey : ¬ key.IsIn b) :
    st'.bind (·.item? key) = st.bind (·.item? key) := by
  have hchanges {w : Write} (hw : w.key.IsIn b) {answer : Except ServiceError Unit}
      (h : Changes st (·.apply w) answer st') : st'.bind (·.item? key) = st.bind (·.item? key) := by
    cases answer with
    | error e =>
      obtain rfl : st' = st := h
      rfl
    | ok _ =>
      obtain ⟨items, rfl, rfl⟩ := h
      have hne : w.key ≠ key := by
        rintro rfl
        exact hkey hw
      exact (Items.item?_apply items w key).trans (if_neg hne)
  cases r with
  | getItem name k =>
    cases answer with
    | ok found => rw [h.1]
    | error e => rw [show st' = st from h]
  | query name partition filter =>
    cases answer with
    | ok found => rw [h.1]
    | error e => rw [show st' = st from h]
  | putItem name item => exact hchanges (w := .put item) hr.2 h
  | deleteItem name k => exact hchanges (w := .delete k) hr.2 h
  | batchWrite name writes =>
    cases answer with
    | error e => rw [show st' = st from h]
    | ok left =>
      obtain ⟨items, k, rfl, -, rfl⟩ := h
      exact Items.item?_applyAll_of_not_isIn (fun w hw => hr.2 w (List.mem_of_mem_take hw)) hkey
  | _ => exact hr.elim

/-- A request about items of a bucket changes no other item. -/
theorem sameOutside_answer {r : Request} (hr : r.IsIn t b) (hs : s.IsCalm) :
    s.SameOutside t b (s.answer r).2 := by
  intro name key hkey
  have hfits := (fits_answer (t := name) hs r).1
  rw [hr.table_eq] at hfits
  rw [getRaw, getRaw]
  split at hfits
  · rename_i hname
    exact item?_of_served hr hfits fun hin => hkey ⟨hname.symm, hin⟩
  · rw [hfits]

end Service

end TableTree
