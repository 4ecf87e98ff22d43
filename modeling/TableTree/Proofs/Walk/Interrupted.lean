import TableTree.Proofs.Undisturbed.Store
import TableTree.Proofs.Walk.Traversal

/-!
# Walks in which a visit fails

A visit takes the front of the queue away before its children are listed. When the listing fails,
the entry is gone from the walk and nothing has taken its place, so the walk goes on without the
entry and without all below it, and ends as if it had been complete.

Results:

* `Walk.Reached`: walks after visits that may have failed.
* `Walk.run_next_cons`, `Walk.next_calm_cons`: what a visit leaves of the queue.
* `Items.walk_filter`: a walk without what lies under a path.
* `Walk.remaining_after_failure`: what a failed visit takes from a walk.
* `Sample.not_remaining_after_failure`: the walk is over after a failure at its start.
-/

namespace TableTree

open Operation

/-! ## Walks without what lies under a path -/

namespace Items

variable {items : Items} {owner : String}

/-- Without what lies under a path, a walk visits the rest as before. Each entry of the queue must
be under the path or apart from it. -/
theorem walk_filter {p : Path} {visits : Nat} {queue es : List Entry}
    (hqueue : ∀ d ∈ queue, d.path.isUnder p = true ∨ Path.Apart d.path p)
    (h : items.walk owner visits queue = some es) :
    items.walk owner visits (queue.filter fun d => !d.path.isUnder p) =
      some (es.filter fun d => !d.path.isUnder p) := by
  fun_induction walk items owner visits queue generalizing es with
  | case1 visits =>
    cases h
    rw [List.filter_nil, walk]
  | case2 => cases h
  | case3 visits e queue ih =>
    obtain ⟨es', hes', rfl⟩ := Option.map_eq_some_iff.1 h
    have hrest (d : Entry) (hd : d ∈ queue) := hqueue d (List.mem_cons_of_mem e hd)
    have hchildren : Entry.ChildrenOf e.path (items.expand owner e) := childrenOf_expand e
    rcases hqueue e List.mem_cons_self with hu | happart
    · -- the entry goes, and its children with it
      have hcs (c : Entry) (hc : c ∈ items.expand owner e) : c.path.isUnder p = true :=
        Path.isUnder_trans (hchildren.isUnder hc) hu
      have hnone : (items.expand owner e).filter (fun d => !d.path.isUnder p) = [] := by
        rw [List.filter_eq_nil_iff]
        intro c hc
        simp [hcs c hc]
      have hwalk := ih (fun d hd => (List.mem_append.1 hd).elim (hrest d) fun hc => .inl (hcs d hc))
        hes'
      rw [List.filter_append, hnone, List.append_nil] at hwalk
      rw [List.filter_cons_of_neg (by simp [hu]), List.filter_cons_of_neg (by simp [hu])]
      exact walk_of_le (Nat.le_succ visits) hwalk
    · -- the entry stays, and its children with it
      have hcs (c : Entry) (hc : c ∈ items.expand owner e) : Path.Apart c.path p := by
        obtain ⟨s, hs⟩ := hchildren.below c hc
        have := Path.Apart.below ⟨happart.2, happart.1⟩ s
        exact hs ▸ ⟨this.2, this.1⟩
      have hall : (items.expand owner e).filter (fun d => !d.path.isUnder p) =
          items.expand owner e := by
        rw [List.filter_eq_self]
        intro c hc
        simp [(hcs c hc).1]
      have hwalk := ih (fun d hd => (List.mem_append.1 hd).elim (hrest d) fun hc => .inr (hcs d hc))
        hes'
      rw [List.filter_append, hall] at hwalk
      rw [List.filter_cons_of_pos (by simp [happart.1]),
        List.filter_cons_of_pos (by simp [happart.1]), walk, hwalk]
      rfl

end Items

namespace Walk

variable {s : Store} {items : Items} {m : Memory} {h : Host Service}

/-! ## Visits that may fail -/

/-- A visit ends as the listing of the entry that is visited does. A failure leaves the queue
without the entry. -/
theorem run_next_cons {σ : Type} {b : Backend σ} {s : Store} {m : Memory} {h : Host σ} (e : Entry)
    (queue : List Entry) :
    ((next s ⟨e :: queue⟩).run m).run b h =
      let r := Operation.run b (if e.isDir then s.listChildren e.path else pure none) m h
      (((r.outcome.map fun _ => some e,
        ⟨queue ++ r.outcome.toOption.join.elim [] fun l => l.entries.filter Entry.isLive⟩),
          r.memory), r.host) := by
  have hkept (r : Except StoreError (Option Entry)) (m' : Memory) (h' : Host σ) :
      (((r, Walk.mk queue), m'), h') = (((r, Walk.mk (queue ++ [])), m'), h') := by
    rw [List.append_nil]
  unfold next
  dsimp only
  cases hdir : e.isDir with
  | true =>
    simp only [if_true]
    show Program.run b ((s.listChildren e.path).start m >>= _) h = _
    rw [Program.run_bind]
    unfold Operation.run
    rcases ((s.listChildren e.path).start m).run b h with ⟨⟨fault | _ | listing, m'⟩, h'⟩
    · exact hkept _ m' h'
    · exact hkept _ m' h'
    · rfl
  | false => exact hkept _ m h

/-- A visit on a service where nobody else writes, with any failures planned: either it succeeds and
puts what the items have below the entry at the end of the queue, or it fails, the entry is a
directory, and the queue is left without it. -/
theorem next_calm_cons (hcalm : h.state.IsCalm) (hitems : h.state.items? s.table = some items)
    (e : Entry) (queue : List Entry) :
    (((next s ⟨e :: queue⟩).run m).run Service.backend h).1.1 =
        (.ok (some e), ⟨queue ++ items.expand s.owner e⟩) ∨
      ∃ fault, (((next s ⟨e :: queue⟩).run m).run Service.backend h).1.1 = (.error fault, ⟨queue⟩) ∧
        e.isDir = true := by
  have hlisting : (if e.isDir then s.listChildren e.path else pure none).Always
      (tableWorld s.table h.now) m (some items) _ := always_listing e
  rw [← hitems] at hlisting
  have hrun := (hlisting.run (Service.within_tableWorld s.table h.now) hcalm rfl).1
  rw [run_next_cons]
  dsimp only
  cases hdir : e.isDir with
  | false =>
    left
    rw [Items.expand, hdir]
    rfl
  | true =>
    rw [hdir] at hrun
    revert hrun
    rcases Operation.run Service.backend (if true = true then s.listChildren e.path else pure none)
      m h with ⟨fault | listing, m', h'⟩
    · intro _
      right
      refine ⟨fault, ?_, rfl⟩
      exact congrArg (fun q => (Except.error fault, Walk.mk q)) (List.append_nil queue)
    · rintro ⟨-, hexpand⟩
      left
      rw [← hexpand]
      rfl

/-- A walk from `root` through a table with the given items after any number of visits, each on a
host of its own with any failures planned. -/
inductive Reached (s : Store) (items : Items) (root : Entry) : Walk → Prop
  | start : Reached s items root (.start root)
  | next {w : Walk} {m : Memory} {h : Host Service} (hw : Reached s items root w)
      (hcalm : h.state.IsCalm) (hitems : h.state.items? s.table = some items) :
      Reached s items root (((w.next s).run m).run Service.backend h).1.1.2

/-- The queue of a walk is in order, and it holds the root of the walk alone or only entries that
the items have below it. -/
structure IsSound (items : Items) (root : Entry) (w : Walk) : Prop where
  isQueue : Entry.IsQueue w.queue
  known : w.queue = [root] ∨ ∀ e ∈ w.queue, e.path.isRoot = false ∧
    ∃ item ∈ items.all, item.key.path? = some e.path

theorem isSound_start (items : Items) (root : Entry) : (start root).IsSound items root where
  isQueue := Entry.isQueue_singleton root
  known := .inl rfl

/-- Both ends of a visit leave a sound queue. -/
theorem IsSound.visit {root e : Entry} {queue : List Entry} (owner : String)
    (hw : IsSound items root ⟨e :: queue⟩) :
    IsSound items root ⟨queue⟩ ∧ IsSound items root ⟨queue ++ items.expand owner e⟩ := by
  have hrest : ∀ d ∈ queue, d.path.isRoot = false ∧
      ∃ item ∈ items.all, item.key.path? = some d.path := by
    intro d hd
    rcases hw.known with hroot | hknown
    · rw [(List.cons.inj hroot).2] at hd
      cases hd
    · exact hknown d (List.mem_cons_of_mem e hd)
  have hchildren : Entry.ChildrenOf e.path (items.expand owner e) := Items.childrenOf_expand e
  refine ⟨⟨?_, .inr hrest⟩, ⟨hw.isQueue.visit hchildren, .inr fun d hd => ?_⟩⟩
  · have hempty := hw.isQueue.visit (Entry.childrenOf_nil e.path)
    rwa [List.append_nil] at hempty
  · rcases List.mem_append.1 hd with hd | hd
    · exact hrest d hd
    · exact ⟨hchildren.isRoot hd, Items.exists_item_of_mem_expand hd⟩

theorem Reached.isSound {root : Entry} {w : Walk} (hw : Reached s items root w) :
    w.IsSound items root := by
  induction hw with
  | start => exact isSound_start items root
  | @next w m h hw hcalm hitems ih =>
    obtain ⟨_ | ⟨e, queue⟩⟩ := w
    · exact ih
    · rcases next_calm_cons (m := m) hcalm hitems e queue with hnext | ⟨fault, hnext, -⟩
      · rw [hnext]
        exact (ih.visit s.owner).2
      · rw [hnext]
        exact (ih.visit s.owner).1

/-- A walk is over after as many visits as there are items and one more. -/
theorem IsSound.exists_walk_eq {root : Entry} {w : Walk} (hw : w.IsSound items root)
    (owner : String) :
    ∃ rest, ∀ visits, items.size < visits → items.walk owner visits w.queue = some rest := by
  have hsize := Nat.lt_succ_self items.size
  obtain ⟨rest, hrest⟩ : ∃ rest, items.walk owner (items.size + 1) w.queue = some rest := by
    refine Option.ne_none_iff_exists'.1 ?_
    rcases hw.known with hroot | hknown
    · rw [hroot]
      exact Items.walk_singleton_ne_none root hsize
    · have hroots : w.queue.countP (fun e => e.path.isRoot) = 0 := by
        rw [List.countP_eq_zero]
        intro e he
        simp [(hknown e he).1]
      have hle := items.toVisit_le w.queue
      exact Items.walk_ne_none hw.isQueue (fun e he => .inr (hknown e he).2) (by omega)
  exact ⟨rest, fun visits hvisits => Items.walk_of_le hvisits hrest⟩

/-! ## What a failure takes away -/

/-- **What a failed visit takes from a walk.** A walk from any entry has been through any number of
visits, failed or not, while nobody else writes. When the next visit fails, an entry has left the
walk: the directory at the front of its queue. Whatever host the walk goes on with, as long as
nothing fails there, it ends without having visited that directory and what lies below it, and
visits the rest as it would have done without the failure. -/
theorem remaining_after_failure {root : Entry} {w w' : Walk} {fault : StoreError}
    (hw : Reached s items root w) (hcalm : h.state.IsCalm)
    (hitems : h.state.items? s.table = some items)
    (hfail : (((w.next s).run m).run Service.backend h).1.1 = (.error fault, w')) :
    ∃ lost : Entry, ∃ rest : List Entry, w.queue = lost :: w'.queue ∧ lost.isDir = true ∧
      ∀ (m₁ : Memory) (h₁ : Host Service), s.Sees items m₁ h₁ → ∀ visits, items.size < visits →
        ((w.collect? s visits).run Service.backend m₁ h₁).outcome = .ok (some (lost :: rest)) ∧
        ((w'.collect? s visits).run Service.backend m₁ h₁).outcome =
          .ok (some (rest.filter fun e => !e.path.isUnder lost.path)) := by
  have hsound := hw.isSound
  obtain ⟨_ | ⟨lost, queue⟩⟩ := w
  · cases hfail
  rcases next_calm_cons (m := m) hcalm hitems lost queue with hnext | ⟨fault', hnext, hdir⟩
  · rw [hnext] at hfail
    cases hfail
  rw [hnext] at hfail
  cases hfail
  obtain ⟨es, hes⟩ := hsound.exists_walk_eq s.owner
  obtain ⟨rest, rfl⟩ := Items.exists_of_walk_cons (hes _ (Nat.lt_succ_self items.size))
  -- the rest of the queue is apart from the directory
  have happart := (List.pairwise_cons.1 hsound.isQueue.apart).1
  have hqueue : ∀ d ∈ lost :: queue, d.path.isUnder lost.path = true ∨
      Path.Apart d.path lost.path := by
    intro d hd
    rcases List.mem_cons.1 hd with rfl | hd
    · exact .inl d.path.isUnder_refl
    · exact .inr ⟨(happart d hd).2, (happart d hd).1⟩
  have hfilter : (lost :: queue).filter (fun d => !d.path.isUnder lost.path) = queue := by
    rw [List.filter_cons_of_neg (by simp [Path.isUnder_refl]), List.filter_eq_self]
    intro d hd
    simp [(happart d hd).2]
  refine ⟨lost, rest, rfl, hdir, fun m₁ h₁ hs visits hvisits => ⟨?_, ?_⟩⟩
  · rw [hs.outcome_collect?, hes visits hvisits]
  · have hwalk := Items.walk_filter hqueue (hes visits hvisits)
    rw [hfilter, List.filter_cons_of_neg (by simp [Path.isUnder_refl])] at hwalk
    rw [hs.outcome_collect?, hwalk]

end Walk

/-! ## A sample -/

namespace Sample

/-- A service with the sample table that throttles the first request. -/
def throttling : Host Service := (hosting nestedItems).planned { throttles := 1 }

theorem isCalm_throttling : throttling.state.IsCalm := rfl

theorem items?_throttling : throttling.state.items? store.table = some nestedItems :=
  (sees_hosting nestedItems).items?_eq

/-- The walk from the root of the bucket, after the visit to the root. -/
def walkBelowRoot : Walk :=
  ((((Walk.start (.directory bucketRoot "o")).next store).run boundMemory).run Service.backend
    (hosting nestedItems)).1.1.2

/-- When the visit to the directory is throttled, the walk goes on with the file beside it and does
not come to the file in it. -/
theorem remaining_after_failure_throttled :
    ∃ fault w', (((walkBelowRoot.next store).run boundMemory).run Service.backend throttling).1.1 =
        (.error fault, w') ∧
      ((walkBelowRoot.collect? store 7).run Service.backend boundMemory
        (hosting nestedItems)).outcome.toOption.join.map (List.map Entry.path) =
          some [directory, otherFile, file] ∧
      ∃ es, ((w'.collect? store 7).run Service.backend boundMemory
          (hosting nestedItems)).outcome = .ok (some es) ∧
        ∀ e ∈ es, e.path.isUnder directory = false := by
  have hreached : Walk.Reached store nestedItems (.directory bucketRoot "o") walkBelowRoot :=
    .next .start rfl (sees_hosting nestedItems).items?_eq
  have hfails : (((walkBelowRoot.next store).run boundMemory).run Service.backend
      throttling).1.1.1.toOption = none := by
    decide +kernel
  have hpaths : ((walkBelowRoot.collect? store 7).run Service.backend boundMemory
      (hosting nestedItems)).outcome.toOption.join.map (List.map Entry.path) =
        some [directory, otherFile, file] := by
    decide +kernel
  rcases hrun : (((walkBelowRoot.next store).run boundMemory).run Service.backend
    throttling).1.1 with ⟨fault | found, w'⟩
  · obtain ⟨lost, rest, -, -, hgo⟩ :=
      Walk.remaining_after_failure hreached isCalm_throttling items?_throttling hrun
    obtain ⟨hbefore, hafter⟩ := hgo boundMemory (hosting nestedItems) (sees_hosting nestedItems) 7
      (by decide +kernel)
    refine ⟨fault, w', rfl, hpaths, _, hafter, fun e he => ?_⟩
    rw [hbefore] at hpaths
    have hlost : lost.path = directory := (List.cons.inj (Option.some.inj hpaths)).1
    rw [← hlost]
    simpa using (List.mem_filter.1 he).2
  · rw [hrun] at hfails
    cases hfails

/-- The visit to the directory is throttled, as the first of a walk from there. -/
theorem exists_next_throttling :
    ∃ fault, ((((Walk.start (.directory directory "o")).next store).run boundMemory).run
      Service.backend throttling).1.1 = (.error fault, ⟨[]⟩) :=
  ⟨_, rfl⟩

/-- A failed visit does take something from a walk. A walk from the directory is over after a first
visit that is throttled, though neither the directory nor the file in it has been visited. -/
theorem not_remaining_after_failure :
    ¬ ∀ (s : Store) (items : Items) (root : Entry) (w w' : Walk) (m : Memory) (h : Host Service)
      (fault : StoreError), Walk.Reached s items root w → h.state.IsCalm →
      h.state.items? s.table = some items →
      (((w.next s).run m).run Service.backend h).1.1 = (.error fault, w') →
      ∀ (m₁ : Memory) (h₁ : Host Service), s.Sees items m₁ h₁ → ∀ visits, items.size < visits →
        ((w'.collect? s visits).run Service.backend m₁ h₁).outcome =
          ((w.collect? s visits).run Service.backend m₁ h₁).outcome := by
  intro hall
  obtain ⟨fault, hfail⟩ := exists_next_throttling
  have hsame := hall store nestedItems (.directory directory "o") _ _ boundMemory throttling fault
    .start isCalm_throttling items?_throttling hfail boundMemory (hosting nestedItems)
    (sees_hosting nestedItems) 7 (by decide +kernel)
  have hpaths := congrArg (fun r => r.toOption.join.map (List.map Entry.path)) hsame
  revert hpaths
  decide +kernel

end Sample

end TableTree
