import TableTree.Proofs.Walk.Snapshot

/-!
# What a walk comes to

Results:

* `Items.walk_ne_none`: a walk is over once it may take a visit for each item under its queue.
* `Items.Connected`: live paths that live directories connect to a path above them.
* `Items.Reaches.connected`, `Items.Connected.exists_reaches`: an entry reaches what is connected
  to it.
-/

namespace TableTree.Items

variable {items : Items} {owner : String}

/-! ## The end of a walk -/

/-- A walk is over once it may take as many visits as are left at most. -/
theorem walk_ne_none {visits : Nat} {queue : List Entry} (hqueue : Entry.IsQueue queue)
    (hitems : ∀ e ∈ queue, e.path.isRoot = true ∨ ∃ item ∈ items.all, item.key.path? = some e.path)
    (hvisits : items.toVisit queue ≤ visits) : items.walk owner visits queue ≠ none := by
  have hlt (e : Entry) (queue : List Entry) (hqueue : Entry.IsQueue (e :: queue))
      (hitem : e.path.isRoot = true ∨ ∃ item ∈ items.all, item.key.path? = some e.path) :
      items.toVisit (queue ++ items.expand owner e) < items.toVisit (e :: queue) :=
    toVisit_visit_lt hqueue (childrenOf_expand e) hitem
  fun_induction walk items owner visits queue with
  | case1 => exact Option.some_ne_none _
  | case2 e queue =>
    have := hlt e queue hqueue (hitems e List.mem_cons_self)
    omega
  | case3 visits e queue ih =>
    have := hlt e queue hqueue (hitems e List.mem_cons_self)
    intro hnone
    refine ih (hqueue.visit (childrenOf_expand e)) (fun c hc => ?_) (by omega)
      (Option.map_eq_none_iff.1 hnone)
    rcases List.mem_append.1 hc with hc | hc
    · exact hitems c (List.mem_cons_of_mem e hc)
    · exact .inr (exists_item_of_mem_expand hc)

/-- A walk from one entry is over after a visit for each item and one more. -/
theorem walk_singleton_ne_none {visits : Nat} (e : Entry) (hvisits : items.size < visits) :
    items.walk owner visits [e] ≠ none := by
  obtain ⟨visits, rfl⟩ := Nat.exists_eq_succ_of_ne_zero (Nat.ne_zero_of_lt hvisits)
  rw [walk, List.nil_append]
  -- there may be no item for the entry, but there is one for each of its children
  have hqueue : Entry.IsQueue (items.expand owner e) :=
    (Entry.isQueue_singleton e).visit (childrenOf_expand e)
  have hroots : (items.expand owner e).countP (fun c => c.path.isRoot) = 0 := by
    rw [List.countP_eq_zero]
    intro c hc
    simp [(childrenOf_expand e).isRoot hc]
  have hle := items.toVisit_le (items.expand owner e)
  intro hnone
  refine walk_ne_none hqueue (fun c hc => .inr (exists_item_of_mem_expand hc)) (by omega)
    (Option.map_eq_none_iff.1 hnone)

/-! ## Connections -/

/-- Whether a path is the root of its bucket or a live directory. -/
def IsDirectory (items : Items) (p : Path) : Prop :=
  p.isRoot = true ∨ items.kind? p = some .directory

/-- Whether `p` is a live path under `path`, with live directories only in between, `path` itself
included if it lies above `p` and is no root. -/
structure Connected (items : Items) (path p : Path) : Prop where
  isLive : items.IsLive p
  isUnder : p.isUnder path = true
  between : ∀ q ∈ p.ancestors, q.isUnder path = true → items.kind? q = some .directory

/-- A live path is connected to itself. -/
theorem connected_self {p : Path} (h : items.IsLive p) : items.Connected p p where
  isLive := h
  isUnder := p.isUnder_refl
  between q hq hu := by
    have := Path.depth_lt_of_mem_ancestors hq
    have := Path.depth_le_of_isUnder hu
    omega

/-- Nothing is connected to a path that is neither live nor a root. -/
theorem Connected.isLive_or_isRoot {path p : Path} (h : items.Connected path p) :
    items.IsLive path ∨ path.isRoot = true := by
  cases hr : path.isRoot with
  | true => exact .inr rfl
  | false =>
    by_cases hp : p = path
    · exact .inl (hp ▸ h.isLive)
    · refine .inl (isLive_of_kind? (h.between path ?_ path.isUnder_refl))
      exact Path.mem_ancestors_of_isUnder h.isUnder hp hr

/-- A child in a listing is a directory as the items say. -/
theorem isDir_iff_of_mem_children {p : Path} {c : Entry} (h : c ∈ items.children owner p) :
    c.isDir = true ↔ items.IsDirectory c.path := by
  obtain ⟨s, -, hs, -, -, hkind⟩ := of_mem_children h
  rw [IsDirectory, hkind, Entry.kind, hs]
  cases c.isDir <;> simp

/-- What an entry reaches is a directory as the items say if the entry is. -/
theorem Reaches.isDir_iff {e x : Entry} (h : Reaches items owner e x)
    (he : e.isDir = true ↔ items.IsDirectory e.path) :
    x.isDir = true ↔ items.IsDirectory x.path := by
  induction h with
  | refl => exact he
  | step hc _ ih => exact ih (isDir_iff_of_mem_children (of_mem_expand hc).2)

theorem Reaches.isUnder {e x : Entry} (h : Reaches items owner e x) :
    x.path.isUnder e.path = true := by
  induction h with
  | refl e => exact e.path.isUnder_refl
  | step hc _ ih => exact Path.isUnder_trans ih ((childrenOf_expand _).isUnder hc)

/-- What an entry reaches is the entry itself or connected to it. -/
theorem Reaches.connected {e x : Entry} (h : Reaches items owner e x)
    (he : e.isDir = true ↔ items.IsDirectory e.path) :
    x.path = e.path ∨ items.Connected e.path x.path := by
  induction h with
  | refl => exact .inl rfl
  | @step e c x hc hx ih =>
    obtain ⟨s, hs⟩ := (childrenOf_expand e).below c hc
    obtain ⟨-, -, -, -, -, hkind⟩ := of_mem_children (of_mem_expand hc).2
    have hcx := ih (isDir_iff_of_mem_children (of_mem_expand hc).2)
    refine .inr ⟨?_, Path.isUnder_trans hx.isUnder ((childrenOf_expand _).isUnder hc), ?_⟩
    · rcases hcx with hcx | hcx
      · rw [hcx]
        exact isLive_of_kind? hkind
      · exact hcx.isLive
    · intro q hq hu
      -- an ancestor under the entry is the entry itself or lies under its child
      by_cases hqe : q = e.path
      · subst hqe
        refine (he.1 (of_mem_expand hc).1).resolve_left ?_
        simp [Path.isRoot_of_mem_ancestors hq]
      · have hdepth : c.path.depth ≤ q.depth := by
          rw [hs, Path.depth_below]
          refine Nat.lt_of_le_of_ne (Path.depth_le_of_isUnder hu) fun heq => hqe ?_
          exact Path.eq_of_isUnder_of_depth_eq hu heq.symm
        have hqc := Path.isUnder_of_isUnder (Path.isUnder_of_mem_ancestors hq) hx.isUnder hdepth
        rcases hcx with hcx | hcx
        · rw [hcx] at hq
          have := Path.depth_lt_of_mem_ancestors hq
          omega
        · exact hcx.between q hq hqc

/-- Whatever is connected to an entry is reached from it. -/
theorem Connected.exists_reaches {e : Entry} {p : Path} (h : items.Connected e.path p)
    (he : e.isDir = true ↔ items.IsDirectory e.path) :
    ∃ x, Reaches items owner e x ∧ x.path = p := by
  induction p using Path.belowInduction with
  | root p hr => exact ⟨e, .refl e, Path.eq_of_isUnder_of_isRoot h.isUnder hr⟩
  | below q s ih =>
    by_cases hp : e.path = q.below s
    · exact ⟨e, .refl e, hp⟩
    have hu := (Path.below_isUnder_iff.1 h.isUnder).resolve_left hp
    obtain ⟨x, hx, hxq⟩ : ∃ x, Reaches items owner e x ∧ x.path = q := by
      cases hr : q.isRoot with
      | true => exact ⟨e, .refl e, Path.eq_of_isUnder_of_isRoot hu hr⟩
      | false =>
        have hq := h.between q (Path.mem_ancestors_below.2 ⟨hr, .inl rfl⟩) hu
        refine ih ⟨isLive_of_kind? hq, hu, ?_⟩
        intro a ha
        exact h.between a (Path.mem_ancestors_below.2 ⟨hr, .inr ha⟩)
    have hdir : x.isDir = true := by
      refine (hx.isDir_iff he).2 ?_
      rw [hxq]
      cases hr : q.isRoot with
      | true => exact .inl hr
      | false => exact .inr (h.between q (Path.mem_ancestors_below.2 ⟨hr, .inl rfl⟩) hu)
    obtain ⟨c, hc, hcp⟩ : ∃ c ∈ items.children owner q, c.path = q.below s :=
      exists_mem_children h.isLive
    refine ⟨c, hx.tail ?_, hcp⟩
    rw [expand, if_pos hdir, hxq]
    exact hc

end TableTree.Items
