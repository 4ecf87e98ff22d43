import TableTree.Proofs.Tree.KeepLast

/-!
# Entries after their ancestors

A list of entries that has each live entry after the ancestors of its path can be stored up to any
place, and no live path is left without its ancestors.

Results:

* `UpClosed`: a set of paths with the ancestors of its paths.
* `AncestorsFirst`: a list whose live entries come after the ancestors of their paths.
* `ancestorsFirst_of_depth`: sorting by depth suffices.
* `AncestorsFirst.putLater_tombstone`, `ancestorsFirst_keepLast`: the order survives keeping the
  last entry of each path.
* `Items.upClosed_storeAll`: storing live entries in such an order.
-/

namespace TableTree

/-- A set of paths that has all ancestors of its paths. -/
def UpClosed (known : Path → Prop) : Prop := ∀ p, known p → ∀ q ∈ p.ancestors, known q

/-- The live paths after an entry is stored. -/
def Entry.mark (known : Path → Prop) (e : Entry) : Path → Prop :=
  fun q => if e.path = q then e.isLive = true else known q

/-- Each live entry of a list comes after the ancestors of its path, unless these are known already
and no tombstone has come in between. -/
def AncestorsFirst (known : Path → Prop) : List Entry → Prop
  | [] => True
  | e :: es =>
    (e.isLive = true → ∀ q ∈ e.path.ancestors, known q) ∧ AncestorsFirst (e.mark known) es

theorem Entry.mark_of_isLive {known : Path → Prop} {e : Entry} (h : e.isLive = true) {q : Path} :
    e.mark known q ↔ e.path = q ∨ known q := by
  unfold mark
  split
  · simp [*]
  · simp [*]

/-- The live paths after live entries are stored. -/
theorem Entry.foldl_mark_iff {known : Path → Prop} {es : List Entry}
    (hes : ∀ e ∈ es, e.isLive = true) {q : Path} :
    es.foldl Entry.mark known q ↔ known q ∨ ∃ e ∈ es, e.path = q := by
  induction es generalizing known with
  | nil => simp
  | cons e es ih =>
    rw [List.foldl_cons, ih fun d hd => hes d (List.mem_cons_of_mem e hd),
      Entry.mark_of_isLive (hes e List.mem_cons_self)]
    simp only [List.mem_cons, exists_eq_or_imp]
    rw [or_assoc, or_left_comm]

namespace AncestorsFirst

variable {known known' : Path → Prop} {es es' : List Entry} {e t : Entry}

/-- Only what the live entries of the list need has to be known. -/
theorem mono (h : AncestorsFirst known es)
    (hk : ∀ e ∈ es, e.isLive = true → ∀ q ∈ e.path.ancestors, known q → known' q) :
    AncestorsFirst known' es := by
  induction es generalizing known known' with
  | nil => trivial
  | cons e es ih =>
    constructor
    · intro hl q hq
      exact hk e List.mem_cons_self hl q hq (h.1 hl q hq)
    · apply ih h.2
      intro d hd hl q hq
      have := hk d (List.mem_cons_of_mem e hd) hl q hq
      unfold Entry.mark
      split
      · exact id
      · exact this

theorem take (h : AncestorsFirst known es) (k : Nat) : AncestorsFirst known (es.take k) := by
  induction es generalizing known k with
  | nil => simpa using h
  | cons e es ih =>
    cases k with
    | zero => trivial
    | succ k => exact ⟨h.1, ih h.2 k⟩

/-- Once some entries are stored, from the front, the others still come after their ancestors. -/
theorem drop (h : AncestorsFirst known es) (k : Nat) :
    AncestorsFirst ((es.take k).foldl Entry.mark known) (es.drop k) := by
  induction es generalizing known k with
  | nil => simpa using h
  | cons e es ih =>
    cases k with
    | zero => exact h
    | succ k => exact ih h.2 k

theorem append (h : AncestorsFirst known es) (h' : AncestorsFirst (es.foldl Entry.mark known) es') :
    AncestorsFirst known (es ++ es') := by
  induction es generalizing known with
  | nil => exact h'
  | cons e es ih => exact ⟨h.1, ih h.2 h'⟩

/-- Entries whose ancestors are all known may come in any order. -/
theorem of_forall (hes : ∀ e ∈ es, e.isLive = true)
    (h : ∀ e ∈ es, ∀ q ∈ e.path.ancestors, known q) : AncestorsFirst known es := by
  induction es generalizing known with
  | nil => trivial
  | cons e es ih =>
    have hrest := fun d hd => hes d (List.mem_cons_of_mem e hd)
    refine ⟨fun _ => h e List.mem_cons_self, ih hrest ?_⟩
    intro d hd q hq
    rw [Entry.mark_of_isLive (hes e List.mem_cons_self)]
    exact .inr (h d (List.mem_cons_of_mem e hd) q hq)

/-! ## One entry for each path -/

/-- A tombstone may take the place of an entry that no live entry of the list lies below. -/
theorem putLater_tombstone (h : AncestorsFirst known es) (ht : t.isLive = false)
    (hbelow : ∀ e ∈ es, e.isLive = true → t.path ∉ e.path.ancestors) :
    AncestorsFirst known (t.putLater es) := by
  induction es generalizing known with
  | nil => exact ⟨fun hl => absurd hl (by simp [ht]), trivial⟩
  | cons d ds ih =>
    have hds := fun e he => hbelow e (List.mem_cons_of_mem d he)
    unfold Entry.putLater
    split
    · rename_i hd
      refine ⟨fun hl => absurd hl (by simp [ht]), h.2.mono ?_⟩
      intro e he hl q hq
      have hne : t.path ≠ q := fun hp => hds e he hl (hp ▸ hq)
      simp [Entry.mark, hd, hne]
    · exact ⟨h.1, ih h.2 hds⟩

/-- Tombstones may take the place of entries that no live entry of the list lies below. -/
theorem foldl_putLater_tombstones {ts : List Entry} (h : AncestorsFirst known es)
    (hts : ∀ t ∈ ts, t.isLive = false)
    (hbelow : ∀ t ∈ ts, ∀ e ∈ es, e.isLive = true → t.path ∉ e.path.ancestors) :
    AncestorsFirst known (ts.foldl (fun known e => e.putLater known) es) := by
  induction ts generalizing es with
  | nil => exact h
  | cons t ts ih =>
    have ht := hts t List.mem_cons_self
    have hrest := fun u hu => hts u (List.mem_cons_of_mem t hu)
    apply ih (h.putLater_tombstone ht (hbelow t List.mem_cons_self)) hrest
    intro u hu e he hl
    rcases Entry.mem_putLater he with rfl | he
    · simp [ht] at hl
    · exact hbelow u (List.mem_cons_of_mem t hu) e he hl

/-- A live entry may take the place of another live one, or come last, once its ancestors are known
or among the entries. -/
theorem putLater_live (h : AncestorsFirst known es) (hes : ∀ d ∈ es, d.isLive = true)
    (hl : e.isLive = true)
    (ha : ∀ q ∈ e.path.ancestors, known q ∨ ∃ d ∈ es, d.path = q) :
    AncestorsFirst known (e.putLater es) := by
  induction es generalizing known with
  | nil => exact ⟨fun _ q hq => by simpa using ha q hq, trivial⟩
  | cons d ds ih =>
    have hd := hes d List.mem_cons_self
    have hds := fun x hx => hes x (List.mem_cons_of_mem d hx)
    unfold Entry.putLater
    split
    · rename_i hp
      constructor
      · intro _ q hq
        exact h.1 hd q (hp ▸ hq)
      · apply h.2.mono
        intro x hx hxl q hq
        rw [Entry.mark_of_isLive hd, Entry.mark_of_isLive hl, hp]
        exact id
    · refine ⟨h.1, ih h.2 hds ?_⟩
      intro q hq
      rw [Entry.mark_of_isLive hd]
      rcases ha q hq with hk | ⟨x, hx, hxq⟩
      · exact .inl (.inr hk)
      · rcases List.mem_cons.1 hx with rfl | hx
        · exact .inl (.inl hxq)
        · exact .inr ⟨x, hx, hxq⟩

end AncestorsFirst

/-- Keeping the last of the live entries of each path keeps their order. -/
theorem ancestorsFirst_keepLast {known : Path → Prop} {es : List Entry}
    (h : AncestorsFirst known es) (hes : ∀ e ∈ es, e.isLive = true) :
    AncestorsFirst known (Entry.keepLast es) := by
  -- on what is still to come, the entries kept so far being known as well
  suffices hfold : ∀ kept, AncestorsFirst known kept → (∀ d ∈ kept, d.isLive = true) →
      AncestorsFirst (fun q => known q ∨ ∃ d ∈ kept, d.path = q) es →
      AncestorsFirst known (es.foldl (fun kept e => e.putLater kept) kept) from
    hfold [] trivial (fun _ hd => absurd hd List.not_mem_nil)
      (h.mono fun _ _ _ _ _ hk => .inl hk)
  clear h
  intro kept hkept hlive h
  induction es generalizing kept with
  | nil => exact hkept
  | cons e es ih =>
    have he := hes e List.mem_cons_self
    have hrest := fun d hd => hes d (List.mem_cons_of_mem e hd)
    apply ih hrest (e.putLater kept) (hkept.putLater_live hlive he (h.1 he))
    · intro d hd
      rcases Entry.mem_putLater hd with rfl | hd
      · exact he
      · exact hlive d hd
    · apply h.2.mono
      intro d _ _ q _ hq
      rw [Entry.mark_of_isLive he] at hq
      rw [Entry.exists_mem_putLater]
      exact or_left_comm.1 hq

/-- A list with shallower paths first that has all ancestors of its paths has them first. -/
theorem ancestorsFirst_of_depth {known : Path → Prop} {es : List Entry}
    (hsorted : es.Pairwise fun d e => d.path.depth ≤ e.path.depth)
    (hclosed : UpClosed fun p => ∃ e ∈ es, e.path = p) (hes : ∀ e ∈ es, e.isLive = true) :
    AncestorsFirst known es := by
  -- on what is still to come, after the entries `before`
  suffices hsplit : ∀ before, (before ++ es).Pairwise (fun d e => d.path.depth ≤ e.path.depth) →
      (UpClosed fun p => ∃ e ∈ before ++ es, e.path = p) →
      AncestorsFirst (fun q => ∃ d ∈ before, d.path = q) es from
    (hsplit [] hsorted hclosed).mono fun _ _ _ _ _ hq => by simp at hq
  clear hsorted hclosed
  intro before hsorted hclosed
  induction es generalizing before with
  | nil => trivial
  | cons e es ih =>
    have he := hes e List.mem_cons_self
    have hassoc : before ++ e :: es = (before ++ [e]) ++ es := by simp
    constructor
    · intro _ q hq
      obtain ⟨d, hd, rfl⟩ := hclosed e.path ⟨e, by simp, rfl⟩ q hq
      have hlt := Path.depth_lt_of_mem_ancestors hq
      rcases List.mem_append.1 hd with hd | hd
      · exact ⟨d, hd, rfl⟩
      · -- neither the entry nor a later one is that shallow
        have hle : e.path.depth ≤ d.path.depth := by
          rcases List.mem_cons.1 hd with rfl | hd
          · exact Nat.le_refl _
          · exact List.rel_of_pairwise_cons (List.pairwise_append.1 hsorted).2.1 hd
        omega
    · rw [hassoc] at hsorted hclosed
      have hrest := fun d hd => hes d (List.mem_cons_of_mem e hd)
      apply (ih hrest (before ++ [e]) hsorted hclosed).mono
      intro d _ _ q _ hq
      rw [Entry.mark_of_isLive he]
      obtain ⟨x, hx, rfl⟩ := hq
      rcases List.mem_append.1 hx with hx | hx
      · exact .inr ⟨x, hx, rfl⟩
      · exact .inl (by rw [List.mem_singleton.1 hx])

/-! ## Storing entries -/

namespace Items

/-- The live paths after an entry is stored. -/
theorem isLive_store {items : Items} {e : Entry} (he : e.path.isRoot = false) :
    (items.store e).IsLive = e.mark items.IsLive := by
  funext p
  unfold IsLive Entry.mark
  rw [kind?_store]
  by_cases h : e.path = p
  · subst h
    simp [he, Entry.liveKind?]
  · simp [h]

/-- The live paths after entries are stored. -/
theorem isLive_storeAll_eq {items : Items} {es : List Entry}
    (hes : ∀ e ∈ es, e.path.isRoot = false) :
    (items.storeAll es).IsLive = es.foldl Entry.mark items.IsLive := by
  induction es generalizing items with
  | nil => rfl
  | cons e es ih =>
    rw [storeAll_cons, ih fun d hd => hes d (List.mem_cons_of_mem e hd),
      isLive_store (hes e List.mem_cons_self), List.foldl_cons]

/-- Storing live entries in such an order leaves no live path without its ancestors. -/
theorem upClosed_storeAll {items : Items} {es : List Entry} (h : UpClosed items.IsLive)
    (hes : ∀ e ∈ es, e.isLive = true ∧ e.path.isRoot = false)
    (hfirst : AncestorsFirst items.IsLive es) : UpClosed (items.storeAll es).IsLive := by
  induction es generalizing items with
  | nil => exact h
  | cons e es ih =>
    obtain ⟨hl, hr⟩ := hes e List.mem_cons_self
    have hstep : (items.store e).IsLive = e.mark items.IsLive := isLive_store hr
    refine ih ?_ (fun d hd => hes d (List.mem_cons_of_mem e hd)) (hstep ▸ hfirst.2)
    intro p hp q hq
    rw [hstep, Entry.mark_of_isLive hl] at hp ⊢
    rcases hp with rfl | hp
    · exact .inr (hfirst.1 hl q hq)
    · exact .inr (h p hp q hq)

end Items

end TableTree
