import TableTree.Path.Basic

/-!
# Above and below

A path is a root or lies directly below another path, and the tree of paths is read along this
case distinction.

Results:

* `Path.mem_ancestors_iff`: the ancestors of a path are the non-root paths properly above it.
* `Path.ancestors_trans`: an ancestor of an ancestor is an ancestor.
* `Path.depth_lt_of_mem_ancestors`: ancestors are shallower.
-/

namespace TableTree.Path

/-- A path is a root, or it lies directly below another one. -/
theorem isRoot_or_below (p : Path) :
    p.isRoot = true ∨ ∃ (q : Path) (s : Segment), p = q.below s := by
  cases h : p.parent? with
  | none => exact .inl (parent?_eq_none_iff.1 h)
  | some q =>
    obtain ⟨s, hs⟩ := parent?_eq_some_iff.1 h
    exact .inr ⟨q, s, hs⟩

/-- What holds of the roots and passes from a path to the paths directly below it holds of every
path. -/
@[elab_as_elim]
theorem belowInduction {motive : Path → Prop} (root : ∀ p, p.isRoot = true → motive p)
    (below : ∀ p s, motive p → motive (p.below s)) (p : Path) : motive p := by
  rcases p.isRoot_or_below with h | ⟨q, s, rfl⟩
  · exact root p h
  · exact below q s (belowInduction root below q)
termination_by p.depth

/-! ## Being under a path -/

theorem isUnder_refl (p : Path) : p.isUnder p = true := by
  simp [isUnder_iff]

theorem isUnder_trans {p q r : Path} (hp : p.isUnder q = true) (hq : q.isUnder r = true) :
    p.isUnder r = true := by
  rw [isUnder_iff] at *
  exact ⟨hp.1.trans hq.1, hq.2.trans hp.2⟩

/-- What lies under a path directly below another is that path or lies under the other. -/
theorem below_isUnder_iff {p q : Path} {s : Segment} :
    (p.below s).isUnder q = true ↔ q = p.below s ∨ p.isUnder q = true := by
  simp only [isUnder_iff, below, List.prefix_concat_iff]
  constructor
  · rintro ⟨hb, hs | hs⟩
    · exact .inl (ext hb.symm hs)
    · exact .inr ⟨hb, hs⟩
  · rintro (rfl | ⟨hb, hs⟩)
    · exact ⟨rfl, .inl rfl⟩
    · exact ⟨hb, .inr hs⟩

theorem below_isUnder (p : Path) (s : Segment) : (p.below s).isUnder p = true :=
  below_isUnder_iff.2 (.inr (isUnder_refl p))

theorem depth_le_of_isUnder {p q : Path} (h : p.isUnder q = true) : q.depth ≤ p.depth :=
  (isUnder_iff.1 h).2.length_le

theorem eq_of_isUnder_of_isRoot {p q : Path} (h : p.isUnder q = true) (hp : p.isRoot = true) :
    q = p := by
  obtain ⟨hb, hs⟩ := isUnder_iff.1 h
  rw [isRoot_iff.1 hp, List.prefix_nil] at hs
  exact ext hb.symm (hs.trans (isRoot_iff.1 hp).symm)

theorem eq_of_isUnder_of_depth_eq {p q : Path} (h : p.isUnder q = true) (hd : p.depth = q.depth) :
    p = q := by
  obtain ⟨hb, hs⟩ := isUnder_iff.1 h
  exact ext hb (hs.eq_of_length hd.symm).symm

/-- Of two paths above a path, the deeper lies under the other. -/
theorem isUnder_of_isUnder {p q r : Path} (hq : p.isUnder q = true) (hr : p.isUnder r = true)
    (h : r.depth ≤ q.depth) : q.isUnder r = true := by
  rw [isUnder_iff] at *
  exact ⟨hq.1.symm.trans hr.1, List.prefix_of_prefix_length_le hr.2 hq.2 h⟩

theorem not_isUnder_below (p : Path) (s : Segment) : p.isUnder (p.below s) = false := by
  refine eq_false_of_ne_true ?_
  intro h
  have := depth_le_of_isUnder h
  rw [depth_below] at this
  omega

/-- What lies properly below a path lies under a path directly below it. -/
theorem exists_isUnder_below {p q : Path} (h : p.isUnder q = true) (hne : p ≠ q) :
    ∃ s : Segment, p.isUnder (q.below s) = true := by
  induction p using belowInduction with
  | root p hr => exact absurd (eq_of_isUnder_of_isRoot h hr).symm hne
  | below p s ih =>
    have hu := (below_isUnder_iff.1 h).resolve_left hne.symm
    by_cases hp : p = q
    · exact ⟨s, hp ▸ isUnder_refl _⟩
    · obtain ⟨s', hs'⟩ := ih hu hp
      exact ⟨s', isUnder_trans (below_isUnder p s) hs'⟩

/-- Two paths of which neither lies under the other. -/
def Apart (p q : Path) : Prop := p.isUnder q = false ∧ q.isUnder p = false

/-- What is apart from a path is apart from the paths directly below it. -/
theorem Apart.below {p q : Path} (h : Apart p q) (s : Segment) : Apart p (q.below s) := by
  refine ⟨eq_false_of_ne_true fun hu => ?_, eq_false_of_ne_true fun hu => ?_⟩
  · exact Bool.false_ne_true (h.1.symm.trans (isUnder_trans hu (below_isUnder q s)))
  · rcases below_isUnder_iff.1 hu with rfl | hu
    · exact Bool.false_ne_true (h.1.symm.trans (below_isUnder q s))
    · exact Bool.false_ne_true (h.2.symm.trans hu)

/-- Different paths directly below one path are apart. -/
theorem apart_below {p : Path} {s s' : Segment} (h : p.below s ≠ p.below s') :
    Apart (p.below s) (p.below s') := by
  have hside {a b : Segment} (hne : p.below a ≠ p.below b) :
      (p.below a).isUnder (p.below b) = false := by
    refine eq_false_of_ne_true ?_
    intro hu
    rcases below_isUnder_iff.1 hu with heq | hu
    · exact hne heq.symm
    · rw [not_isUnder_below] at hu
      cases hu
  exact ⟨hside h, hside h.symm⟩

/-! ## Ancestors -/

theorem ancestors_of_isRoot {p : Path} (h : p.isRoot = true) : p.ancestors = [] := by
  rw [ancestors]
  split
  · rfl
  · rename_i q hq
    rw [parent?_eq_none_iff.2 h] at hq
    cases hq

@[simp] theorem ancestors_below (p : Path) (s : Segment) :
    (p.below s).ancestors = if p.isRoot then [] else p :: p.ancestors := by
  rw [ancestors]
  split
  · rename_i h
    rw [parent?_below] at h
    cases h
  · rename_i q h
    rw [parent?_below] at h
    cases h
    rfl

/-- What lies directly below a path that is no root has it and its ancestors for ancestors. -/
theorem mem_ancestors_below {p q : Path} {s : Segment} :
    q ∈ (p.below s).ancestors ↔ p.isRoot = false ∧ (q = p ∨ q ∈ p.ancestors) := by
  rw [ancestors_below]
  cases p.isRoot <;> simp

/-- The ancestors of a path are the other paths above it that are no roots. -/
theorem mem_ancestors_iff {p q : Path} :
    q ∈ p.ancestors ↔ q.isRoot = false ∧ q ≠ p ∧ p.isUnder q = true := by
  induction p using belowInduction with
  | root p h =>
    simp only [ancestors_of_isRoot h, List.not_mem_nil, false_iff]
    rintro ⟨-, hne, hu⟩
    exact hne (eq_of_isUnder_of_isRoot hu h)
  | below p s ih =>
    have hne {r : Path} (h : p.isUnder r = true) : r ≠ p.below s := by
      rintro rfl
      have := depth_le_of_isUnder h
      rw [depth_below] at this
      omega
    rw [ancestors_below, below_isUnder_iff]
    cases hr : p.isRoot with
    | true =>
      simp only [if_true, List.not_mem_nil, false_iff]
      rintro ⟨hq, hqs, hqu | hqu⟩
      · exact hqs hqu
      · rw [eq_of_isUnder_of_isRoot hqu hr, hr] at hq
        cases hq
    | false =>
      simp only [Bool.false_eq_true, if_false, List.mem_cons, ih]
      constructor
      · rintro (rfl | ⟨hq, -, hqu⟩)
        · exact ⟨hr, hne (isUnder_refl q), .inr (isUnder_refl q)⟩
        · exact ⟨hq, hne hqu, .inr hqu⟩
      · rintro ⟨hq, hqs, hqu | hqu⟩
        · exact absurd hqu hqs
        · by_cases h : q = p
          · exact .inl h
          · exact .inr ⟨hq, h, hqu⟩

theorem depth_lt_of_mem_ancestors {p q : Path} (h : q ∈ p.ancestors) : q.depth < p.depth := by
  induction p using belowInduction with
  | root p hr => simp [ancestors_of_isRoot hr] at h
  | below p s ih =>
    rw [depth_below]
    rcases mem_ancestors_below.1 h with ⟨-, rfl | h⟩
    · omega
    · have := ih h
      omega

theorem isRoot_of_mem_ancestors {p q : Path} (h : q ∈ p.ancestors) : q.isRoot = false :=
  (mem_ancestors_iff.1 h).1

/-- A path with ancestors is no root. -/
theorem isRoot_of_mem_ancestors_of {p q : Path} (h : q ∈ p.ancestors) : p.isRoot = false := by
  cases hr : p.isRoot with
  | false => rfl
  | true => simp [ancestors_of_isRoot hr] at h

theorem isUnder_of_mem_ancestors {p q : Path} (h : q ∈ p.ancestors) : p.isUnder q = true :=
  (mem_ancestors_iff.1 h).2.2

theorem ne_of_mem_ancestors {p q : Path} (h : q ∈ p.ancestors) : q ≠ p :=
  (mem_ancestors_iff.1 h).2.1

theorem ancestors_trans {p q r : Path} (hq : q ∈ p.ancestors) (hr : r ∈ q.ancestors) :
    r ∈ p.ancestors := by
  have hdepth := depth_lt_of_mem_ancestors hr
  have hdepth' := depth_lt_of_mem_ancestors hq
  refine mem_ancestors_iff.2 ⟨isRoot_of_mem_ancestors hr, ?_,
    isUnder_trans (isUnder_of_mem_ancestors hq) (isUnder_of_mem_ancestors hr)⟩
  rintro rfl
  omega

/-- Each path is above the ones before it. -/
theorem pairwise_ancestors (p : Path) : p.ancestors.Pairwise fun q r => r ∈ q.ancestors := by
  induction p using belowInduction with
  | root p hr => simp [ancestors_of_isRoot hr]
  | below p s ih =>
    rw [ancestors_below]
    split
    · exact .nil
    · exact List.pairwise_cons.2 ⟨fun _ => id, ih⟩

/-- The order by depth puts no deeper path first. -/
theorem depth_le_of_compareByDepth {p q : Path} (h : compareByDepth p q = .lt) :
    p.depth ≤ q.depth := by
  unfold compareByDepth compareLex compareOn at h
  cases hc : compare p.depth q.depth with
  | lt => exact Nat.le_of_lt (Nat.compare_eq_lt.1 hc)
  | eq => exact Nat.le_of_eq (Nat.compare_eq_eq.1 hc)
  | gt =>
    rw [hc] at h
    cases h

/-- Whatever lies properly below a path that is no root has it among its ancestors. -/
theorem mem_ancestors_of_isUnder {p q : Path} (h : p.isUnder q = true) (hne : p ≠ q)
    (hq : q.isRoot = false) : q ∈ p.ancestors :=
  mem_ancestors_iff.2 ⟨hq, Ne.symm hne, h⟩

end TableTree.Path
