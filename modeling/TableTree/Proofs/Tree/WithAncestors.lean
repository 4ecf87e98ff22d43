import TableTree.Proofs.Tree.AncestorsFirst

/-!
# What is stored along with an entry

Without a look at the table, a list of entries is stored with all ancestors of its paths. The map in
which they are collected holds the ancestors of whatever it holds, so a walk up that comes to a path
in it may stop there.

Results:

* `Entry.getElem?_addStandIns`, `Entry.getElem?_addWithAncestors`: what one entry adds to the map.
* `Entry.exists_mem_withAncestors`: the paths of the list.
* `Entry.of_mem_withAncestors`: an entry of the list was given or is a stand-in.
* `Entry.ancestorsFirst_withAncestors`: the list has ancestors first.
-/

namespace TableTree

/-! ## Maps by depth -/

section Map

variable {α β : Type} {cmp : α → α → Ordering} [Std.TransCmp cmp]

theorem values_eq_map_toList (m : Std.ExtTreeMap α β cmp) : m.values = m.toList.map Prod.snd := by
  rcases m with ⟨⟨⟨m⟩⟩⟩
  show m.inner.values = (Std.DTreeMap.Internal.Impl.Const.toList m.inner).map Prod.snd
  rw [Std.DTreeMap.Internal.Impl.values_eq_map_snd,
    Std.DTreeMap.Internal.Impl.Const.toList_eq_toListModel_map]
  simp

theorem mem_values_iff [Std.LawfulEqCmp cmp] {m : Std.ExtTreeMap α β cmp} {b : β} :
    b ∈ m.values ↔ ∃ a : α, m[a]? = some b := by
  rw [values_eq_map_toList, List.mem_map]
  constructor
  · rintro ⟨⟨a, b⟩, hab, rfl⟩
    exact ⟨a, Std.ExtTreeMap.mem_toList_iff_getElem?_eq_some.1 hab⟩
  · rintro ⟨a, ha⟩
    exact ⟨(a, b), Std.ExtTreeMap.mem_toList_iff_getElem?_eq_some.2 ha, rfl⟩

end Map

namespace Entry

variable {owner : String}

theorem getElem?_insert_byDepth (known : ByDepth) (p : Path) (e : Entry) (q : Path) :
    (known.insert p e)[q]? = if p = q then some e else known[q]? := by
  rw [Std.ExtTreeMap.getElem?_insert]
  simp only [Std.LawfulEqCmp.compare_eq_iff_eq]

/-- Stand-ins are added for the ancestors that are missing. A walk up may stop at the first that is
there because its own ancestors are there as well. -/
theorem getElem?_addStandIns {p : Path} {known : ByDepth}
    (hclosed : ∀ q ∈ p.ancestors, known[q]?.isSome → ∀ r ∈ q.ancestors, known[r]?.isSome)
    (r : Path) :
    (addStandIns owner p.ancestors known)[r]? =
      known[r]?.or (if r ∈ p.ancestors then some (standIn r owner) else none) := by
  induction p using Path.belowInduction generalizing known with
  | root p hr => simp [Path.ancestors_of_isRoot hr, addStandIns]
  | below q s ih =>
    rw [Path.ancestors_below] at hclosed ⊢
    cases hq : q.isRoot with
    | true => simp [addStandIns]
    | false =>
      simp only [hq, Bool.false_eq_true, if_false] at hclosed ⊢
      rw [addStandIns, Std.ExtTreeMap.contains_eq_isSome_getElem?]
      split
      · rename_i hknown
        have hall : ∀ a ∈ q :: q.ancestors, known[a]?.isSome := by
          intro a ha
          rcases List.mem_cons.1 ha with rfl | ha
          · exact hknown
          · exact hclosed q List.mem_cons_self hknown a ha
        split
        · rename_i hmem
          obtain ⟨e, he⟩ := Option.isSome_iff_exists.1 (hall r hmem)
          rw [he]
          rfl
        · simp
      · rename_i hmissing
        have hnone : known[q]? = none := by simpa using hmissing
        rw [ih, getElem?_insert_byDepth]
        · by_cases hqr : q = r
          · subst hqr
            simp [hnone]
          · simp [hqr, Ne.symm hqr]
        · intro a ha hsome b hb
          rw [getElem?_insert_byDepth] at hsome ⊢
          rw [if_neg (Path.ne_of_mem_ancestors ha).symm] at hsome
          split
          · rfl
          · exact hclosed a (List.mem_cons_of_mem q ha) hsome b hb

/-- An entry replaces whatever stood for its path and adds its missing ancestors. -/
theorem getElem?_addWithAncestors {known : ByDepth} {e : Entry} (he : e.path.isRoot = false)
    (hclosed : UpClosed fun p => known[p]?.isSome) (r : Path) :
    (addWithAncestors owner known e)[r]? =
      if e.path = r then some e
      else known[r]?.or (if r ∈ e.path.ancestors then some (standIn r owner) else none) := by
  rw [addWithAncestors, if_neg (by simp [he]), getElem?_addStandIns, getElem?_insert_byDepth]
  · split <;> rfl
  · intro q hq hsome a ha
    rw [getElem?_insert_byDepth] at hsome ⊢
    rw [if_neg (Path.ne_of_mem_ancestors hq).symm] at hsome
    split
    · rfl
    · exact hclosed q hsome a ha

/-- The paths after an entry is added. -/
theorem isSome_addWithAncestors {known : ByDepth} {e : Entry}
    (hclosed : UpClosed fun p => known[p]?.isSome) (r : Path) :
    (addWithAncestors owner known e)[r]?.isSome ↔
      known[r]?.isSome ∨ e.path.isRoot = false ∧ (r = e.path ∨ r ∈ e.path.ancestors) := by
  cases he : e.path.isRoot with
  | true => simp [addWithAncestors, he]
  | false =>
    rw [getElem?_addWithAncestors he hclosed]
    by_cases hr : e.path = r
    · simp [hr]
    · rw [if_neg hr, Option.isSome_or]
      by_cases hm : r ∈ e.path.ancestors
      · simp [hm]
      · simp [hm, Ne.symm hr]

/-- Adding an entry keeps a map that has the ancestors of its paths such a map. -/
theorem upClosed_addWithAncestors {known : ByDepth} (e : Entry)
    (hclosed : UpClosed fun p => known[p]?.isSome) :
    UpClosed fun p => (addWithAncestors owner known e)[p]?.isSome := by
  intro p hp q hq
  rw [isSome_addWithAncestors hclosed] at hp ⊢
  rcases hp with hp | ⟨he, rfl | hp⟩
  · exact .inl (hclosed p hp q hq)
  · exact .inr ⟨he, .inr hq⟩
  · exact .inr ⟨he, .inr (Path.ancestors_trans hp hq)⟩

/-- The paths of a list and of the map it is added to. -/
theorem isSome_foldl_addWithAncestors {known : ByDepth} (es : List Entry)
    (hclosed : UpClosed fun p => known[p]?.isSome) (r : Path) :
    (es.foldl (addWithAncestors owner) known)[r]?.isSome ↔ known[r]?.isSome ∨
      ∃ e ∈ es, e.path.isRoot = false ∧ (r = e.path ∨ r ∈ e.path.ancestors) := by
  induction es generalizing known with
  | nil => simp
  | cons e es ih =>
    rw [List.foldl_cons, ih (upClosed_addWithAncestors e hclosed),
      isSome_addWithAncestors hclosed, or_assoc]
    simp

/-- What is in the map for a path was in it before, or is an entry of the path, or stands in for an
ancestor. -/
theorem of_getElem?_foldl_addWithAncestors {known : ByDepth} {es : List Entry} {r : Path}
    {d : Entry} (hclosed : UpClosed fun p => known[p]?.isSome)
    (h : (es.foldl (addWithAncestors owner) known)[r]? = some d) :
    known[r]? = some d ∨ r.isRoot = false ∧ d.path = r ∧
      (d ∈ es ∨ d = standIn r owner ∧ ∃ e ∈ es, r ∈ e.path.ancestors) := by
  induction es generalizing known with
  | nil => exact .inl h
  | cons e es ih =>
    rcases ih (upClosed_addWithAncestors e hclosed) h with h | ⟨hr, hp, hd | ⟨hd, x, hx, hrx⟩⟩
    · cases he : e.path.isRoot with
      | true => exact .inl (by simpa [addWithAncestors, he] using h)
      | false =>
        rw [getElem?_addWithAncestors he hclosed] at h
        split at h
        · rename_i hr
          cases h
          exact .inr ⟨hr ▸ he, hr, .inl List.mem_cons_self⟩
        · rcases Option.or_eq_some_iff.1 h with h | ⟨-, h⟩
          · exact .inl h
          · split at h
            · rename_i hm
              cases h
              exact .inr ⟨Path.isRoot_of_mem_ancestors hm, rfl,
                .inr ⟨rfl, e, List.mem_cons_self, hm⟩⟩
            · cases h
    · exact .inr ⟨hr, hp, .inl (List.mem_cons_of_mem e hd)⟩
    · exact .inr ⟨hr, hp, .inr ⟨hd, x, List.mem_cons_of_mem e hx, hrx⟩⟩

/-! ## The list with ancestors -/

theorem upClosed_empty : UpClosed fun p => (∅ : ByDepth)[p]?.isSome := by
  intro p hp
  simp at hp

/-- What the map of a list holds for a path. -/
theorem of_getElem?_withAncestors {es : List Entry} {r : Path} {d : Entry}
    (h : (es.foldl (addWithAncestors owner) ∅)[r]? = some d) :
    r.isRoot = false ∧ d.path = r ∧
      (d ∈ es ∨ d = standIn r owner ∧ ∃ e ∈ es, r ∈ e.path.ancestors) :=
  (of_getElem?_foldl_addWithAncestors upClosed_empty h).resolve_left (by simp)

/-- An entry of the list is no root, and it was given or stands in for an ancestor. -/
theorem of_mem_withAncestors {es : List Entry} {d : Entry} (h : d ∈ withAncestors es owner) :
    d.path.isRoot = false ∧
      (d ∈ es ∨ d = standIn d.path owner ∧ ∃ e ∈ es, d.path ∈ e.path.ancestors) := by
  obtain ⟨r, hr⟩ := mem_values_iff.1 h
  obtain ⟨hroot, rfl, hd⟩ := of_getElem?_withAncestors hr
  exact ⟨hroot, hd⟩

theorem isLive_of_mem_withAncestors {es : List Entry} (hes : ∀ e ∈ es, e.isLive = true) {d : Entry}
    (h : d ∈ withAncestors es owner) : d.isLive = true := by
  rcases (of_mem_withAncestors h).2 with hd | ⟨hd, -⟩
  · exact hes d hd
  · rw [hd]
    rfl

@[simp] theorem withAncestors_nil : withAncestors [] owner = [] := by
  refine List.eq_nil_iff_forall_not_mem.2 ?_
  intro d hd
  obtain ⟨-, hd | ⟨-, e, he, -⟩⟩ := of_mem_withAncestors hd
  · exact List.not_mem_nil hd
  · exact List.not_mem_nil he

/-- Without a list of entries there is nothing to complete. -/
theorem elim_withAncestors (es : Option (List Entry)) :
    (es.elim [] fun es => withAncestors es owner) = withAncestors (es.getD []) owner := by
  cases es with
  | none => exact withAncestors_nil.symm
  | some es => rfl

/-- The paths of the list are the given ones and their ancestors. -/
theorem exists_mem_withAncestors {es : List Entry} {p : Path} :
    (∃ d ∈ withAncestors es owner, d.path = p) ↔
      ∃ e ∈ es, e.path.isRoot = false ∧ (p = e.path ∨ p ∈ e.path.ancestors) := by
  have hfold : (es.foldl (addWithAncestors owner) ∅)[p]?.isSome ↔ _ :=
    isSome_foldl_addWithAncestors es upClosed_empty p
  simp only [Std.ExtTreeMap.getElem?_empty, Option.isSome_none, Bool.false_eq_true,
    false_or] at hfold
  rw [← hfold]
  constructor
  · rintro ⟨d, hd, rfl⟩
    obtain ⟨r, hr⟩ := mem_values_iff.1 hd
    rw [(of_getElem?_withAncestors hr).2.1, hr]
    rfl
  · intro h
    obtain ⟨d, hd⟩ := Option.isSome_iff_exists.1 h
    exact ⟨d, mem_values_iff.2 ⟨p, hd⟩, (of_getElem?_withAncestors hd).2.1⟩

theorem upClosed_withAncestors (es : List Entry) :
    UpClosed fun p => ∃ d ∈ withAncestors es owner, d.path = p := by
  intro p hp q hq
  rw [exists_mem_withAncestors] at hp ⊢
  obtain ⟨e, he, hr, rfl | hp⟩ := hp
  · exact ⟨e, he, hr, .inr hq⟩
  · exact ⟨e, he, hr, .inr (Path.ancestors_trans hp hq)⟩

/-- The list is in strict order. -/
theorem pairwise_compareByDepth_withAncestors (es : List Entry) :
    (withAncestors es owner).Pairwise fun d e => Path.compareByDepth d.path e.path = .lt := by
  rw [withAncestors, values_eq_map_toList, List.pairwise_map]
  refine Std.ExtTreeMap.ordered_keys_toList.imp_of_mem fun {x y} hx hy hlt => ?_
  have hpath : ∀ z ∈ (es.foldl (addWithAncestors owner) ∅).toList, z.2.path = z.1 := fun z hz =>
    (of_getElem?_withAncestors (Std.ExtTreeMap.mem_toList_iff_getElem?_eq_some.1 hz)).2.1
  rw [hpath x hx, hpath y hy]
  exact hlt

/-- Shallower paths come first. -/
theorem pairwise_withAncestors (es : List Entry) :
    (withAncestors es owner).Pairwise fun d e => d.path.depth ≤ e.path.depth :=
  (pairwise_compareByDepth_withAncestors es).imp Path.depth_le_of_compareByDepth

/-- The list has ancestors first. -/
theorem ancestorsFirst_withAncestors {known : Path → Prop} {es : List Entry}
    (hes : ∀ e ∈ es, e.isLive = true) : AncestorsFirst known (withAncestors es owner) := by
  apply ancestorsFirst_of_depth (pairwise_withAncestors es) (upClosed_withAncestors es)
  intro d hd
  exact isLive_of_mem_withAncestors hes hd

end Entry

end TableTree
