import TableTree.Proofs.Binding
import TableTree.Proofs.Tree.AncestorsFirst
import TableTree.Store.Write

/-!
# Ancestors that a table lacks

With a look at the table, an entry is stored with its ancestors up to the first live one, if there
is one. Where live paths have live ancestors, these are all that are missing.

Results:

* `Entry.ancestorsFirst_withStandIns`: an entry with stand-ins for its nearest ancestors, where the
  others are known.
* `Items.lacking`, `Items.withMissing`: the ancestors up to the first live one, and the entries that
  are stored.
* `Items.knownBeyond_lacking`: no other ancestors are missing.
* `Items.ancestorsFirst_withMissing`: the entries come after their ancestors.
* `Store.always_withMissingAncestors`: what a store finds when it looks.
-/

namespace TableTree

/-- The paths `qs` are the first of `ps`, and all others of these are known. -/
def KnownBeyond (known : Path → Prop) (ps qs : List Path) : Prop :=
  ∃ rest, ps = qs ++ rest ∧ ∀ q ∈ rest, known q

theorem KnownBeyond.or_mem {known : Path → Prop} {ps qs : List Path} (h : KnownBeyond known ps qs)
    {q : Path} (hq : q ∈ ps) : known q ∨ q ∈ qs := by
  obtain ⟨rest, rfl, hrest⟩ := h
  exact (List.mem_append.1 hq).symm.imp (hrest q) id

namespace Entry

variable {owner : String} {known : Path → Prop} {e : Entry} {qs : List Path}

/-- An entry with stand-ins for paths above it, of which the nearest are given first. An entry at a
root is left out. -/
def withStandIns (e : Entry) (owner : String) (qs : List Path) : List Entry :=
  (qs.map (standIn · owner)).reverse ++ if e.path.isRoot then [] else [e]

theorem of_mem_withStandIns {d : Entry} (h : d ∈ e.withStandIns owner qs) :
    d = e ∧ e.path.isRoot = false ∨ d.path ∈ qs ∧ d = standIn d.path owner := by
  rcases List.mem_append.1 h with h | h
  · obtain ⟨q, hq, rfl⟩ := List.mem_map.1 (List.mem_reverse.1 h)
    exact .inr ⟨hq, rfl⟩
  · split at h
    · simp at h
    · rename_i hr
      exact .inl ⟨List.mem_singleton.1 h, by simpa using hr⟩

/-- The paths of an entry with stand-ins. -/
theorem exists_mem_withStandIns {p : Path} :
    (∃ d ∈ e.withStandIns owner qs, d.path = p) ↔ p ∈ qs ∨ e.path.isRoot = false ∧ p = e.path := by
  constructor
  · rintro ⟨d, hd, rfl⟩
    rcases of_mem_withStandIns hd with ⟨rfl, hr⟩ | ⟨hq, -⟩
    · exact .inr ⟨hr, rfl⟩
    · exact .inl hq
  · rintro (h | ⟨hr, rfl⟩)
    · refine ⟨standIn p owner, List.mem_append_left _ ?_, rfl⟩
      exact List.mem_reverse.2 (List.mem_map.2 ⟨p, h, rfl⟩)
    · exact ⟨e, List.mem_append_right _ (by simp [hr]), rfl⟩

theorem isLive_of_mem_withStandIns (he : e.isLive = true) {d : Entry}
    (h : d ∈ e.withStandIns owner qs) : d.isLive = true := by
  rcases of_mem_withStandIns h with ⟨rfl, -⟩ | ⟨-, hd⟩
  · exact he
  · rw [hd]
    rfl

theorem isRoot_of_mem_withStandIns (h : KnownBeyond known e.path.ancestors qs) {d : Entry}
    (hd : d ∈ e.withStandIns owner qs) : d.path.isRoot = false := by
  obtain ⟨rest, heq, -⟩ := h
  rcases of_mem_withStandIns hd with ⟨rfl, hr⟩ | ⟨hq, -⟩
  · exact hr
  · exact Path.isRoot_of_mem_ancestors (heq ▸ List.mem_append_left rest hq)

/-- Stand-ins make their paths known. -/
theorem foldl_mark_standIns_iff {q : Path} :
    (qs.map (standIn · owner)).reverse.foldl Entry.mark known q ↔ known q ∨ q ∈ qs := by
  have hlive : ∀ e ∈ (qs.map (standIn · owner)).reverse, e.isLive = true := by
    intro e he
    obtain ⟨r, -, rfl⟩ := List.mem_map.1 (List.mem_reverse.1 he)
    rfl
  rw [foldl_mark_iff hlive]
  apply or_congr_right
  constructor
  · rintro ⟨e, he, rfl⟩
    obtain ⟨r, hr, rfl⟩ := List.mem_map.1 (List.mem_reverse.1 he)
    exact hr
  · intro hq
    exact ⟨standIn q owner, List.mem_reverse.2 (List.mem_map.2 ⟨q, hq, rfl⟩), rfl⟩

/-- Stand-ins for the nearest ancestors of a path come after theirs if the other ancestors are
known. -/
theorem ancestorsFirst_standIns {p : Path} (h : KnownBeyond known p.ancestors qs) :
    AncestorsFirst known (qs.map (standIn · owner)).reverse := by
  induction p using Path.belowInduction generalizing qs with
  | root p hr =>
    obtain ⟨rest, heq, -⟩ := h
    rw [Path.ancestors_of_isRoot hr] at heq
    rw [(List.append_eq_nil_iff.1 heq.symm).1]
    trivial
  | below p s ih =>
    cases qs with
    | nil => trivial
    | cons q qs =>
      obtain ⟨rest, heq, hrest⟩ := h
      rw [Path.ancestors_below] at heq
      split at heq
      · cases heq
      · obtain ⟨rfl, htail⟩ : p = q ∧ p.ancestors = qs ++ rest := List.cons.inj heq
        have hp : KnownBeyond known p.ancestors qs := ⟨rest, htail, hrest⟩
        rw [List.map_cons, List.reverse_cons]
        refine (ih hp).append ⟨?_, trivial⟩
        intro _ r hr
        rw [foldl_mark_standIns_iff]
        exact hp.or_mem hr

/-- With stand-ins for its nearest ancestors, an entry comes after all of them if the others are
known. -/
theorem ancestorsFirst_withStandIns (h : KnownBeyond known e.path.ancestors qs) :
    AncestorsFirst known (e.withStandIns owner qs) := by
  unfold withStandIns
  split
  · rw [List.append_nil]
    exact ancestorsFirst_standIns h
  · refine (ancestorsFirst_standIns h).append ⟨?_, trivial⟩
    intro _ q hq
    rw [foldl_mark_standIns_iff]
    exact h.or_mem hq

end Entry

namespace Items

variable {items : Items} {owner : String}

/-- The ancestors of a path up to the first live one, nearest first. -/
def lacking (items : Items) (p : Path) : List Path :=
  p.ancestors.takeWhile fun q => !decide (items.IsLive q)

/-- An entry with stand-ins for the ancestors up to the first live one, shallower paths first. -/
def withMissing (items : Items) (owner : String) (e : Entry) : List Entry :=
  ((items.lacking e.path).map (Entry.standIn · owner)).reverse ++
    if e.path.isRoot then [] else [e]

theorem lacking_of_isRoot {p : Path} (h : p.isRoot = true) : items.lacking p = [] := by
  rw [lacking, Path.ancestors_of_isRoot h, List.takeWhile_nil]

theorem lacking_below (p : Path) (s : Segment) :
    items.lacking (p.below s) =
      if p.isRoot = true ∨ items.IsLive p then [] else p :: items.lacking p := by
  unfold lacking
  rw [Path.ancestors_below]
  cases p.isRoot with
  | true => simp
  | false => by_cases h : items.IsLive p <;> simp [h]

theorem of_mem_lacking {p q : Path} (h : q ∈ items.lacking p) :
    q ∈ p.ancestors ∧ ¬ items.IsLive q := by
  refine ⟨(List.takeWhile_prefix _).subset h, ?_⟩
  have := List.all_takeWhile (p := fun q => !decide (items.IsLive q)) (l := p.ancestors)
  simpa using List.all_eq_true.1 this q h

theorem withMissing_eq (e : Entry) :
    items.withMissing owner e = e.withStandIns owner (items.lacking e.path) := rfl

theorem of_mem_withMissing {e d : Entry} (h : d ∈ items.withMissing owner e) :
    d.path.isRoot = false ∧
      (d = e ∨ d.path ∈ items.lacking e.path ∧ d = Entry.standIn d.path owner) := by
  rw [withMissing_eq] at h
  rcases Entry.of_mem_withStandIns h with ⟨rfl, hr⟩ | hd
  · exact ⟨hr, .inl rfl⟩
  · exact ⟨Path.isRoot_of_mem_ancestors (of_mem_lacking hd.1).1, .inr hd⟩

/-- Where live paths have live ancestors, the other ancestors of a path are live. -/
theorem knownBeyond_lacking (hup : UpClosed items.IsLive) (p : Path) :
    KnownBeyond items.IsLive p.ancestors (items.lacking p) := by
  induction p using Path.belowInduction with
  | root p hr => exact ⟨[], by rw [lacking_of_isRoot hr, Path.ancestors_of_isRoot hr]; rfl, by simp⟩
  | below p s ih =>
    rw [lacking_below, Path.ancestors_below]
    by_cases hr : p.isRoot = true
    · exact ⟨[], by simp [hr], by simp⟩
    · by_cases hp : items.IsLive p
      · refine ⟨p :: p.ancestors, by simp [hr, hp], ?_⟩
        exact List.forall_mem_cons.2 ⟨hp, hup p hp⟩
      · obtain ⟨rest, heq, hrest⟩ := ih
        exact ⟨rest, by simp [hr, hp, heq], hrest⟩

/-- The stored entries come after their ancestors. -/
theorem ancestorsFirst_withMissing (hup : UpClosed items.IsLive) (e : Entry) :
    AncestorsFirst items.IsLive (items.withMissing owner e) := by
  rw [withMissing_eq]
  exact Entry.ancestorsFirst_withStandIns (knownBeyond_lacking hup e.path)

/-! ### Once some are stored -/

/-- The ancestors that are missing depend on what is live among them. -/
theorem lacking_congr {items' : Items} {p : Path}
    (h : ∀ q ∈ p.ancestors, items'.IsLive q ↔ items.IsLive q) :
    items'.lacking p = items.lacking p := by
  have hall : ∀ qs : List Path, (∀ q ∈ qs, items'.IsLive q ↔ items.IsLive q) →
      (qs.takeWhile fun q => !decide (items'.IsLive q)) =
        qs.takeWhile fun q => !decide (items.IsLive q) := by
    intro qs hqs
    induction qs with
    | nil => rfl
    | cons q qs ih =>
      simp only [List.takeWhile_cons, decide_eq_decide.2 (hqs q List.mem_cons_self),
        ih fun r hr => hqs r (List.mem_cons_of_mem q hr)]
  exact hall _ h

/-- The stand-ins for the missing ancestors of a path, shallower paths first. -/
def standIns (items : Items) (owner : String) (p : Path) : List Entry :=
  ((items.lacking p).map (Entry.standIn · owner)).reverse

theorem standIns_of_isRoot {p : Path} (h : p.isRoot = true) : items.standIns owner p = [] := by
  rw [standIns, lacking_of_isRoot h, List.map_nil, List.reverse_nil]

theorem standIns_below (p : Path) (s : Segment) :
    items.standIns owner (p.below s) =
      if p.isRoot = true ∨ items.IsLive p then []
      else items.standIns owner p ++ [Entry.standIn p owner] := by
  rw [standIns, lacking_below]
  split
  · rfl
  · rw [List.map_cons, List.reverse_cons, standIns]

/-- Stand-ins are stored for ancestors. -/
theorem path_mem_ancestors_of_mem_standIns {p : Path} {e : Entry} (h : e ∈ items.standIns owner p) :
    e.path ∈ p.ancestors := by
  obtain ⟨q, hq, rfl⟩ := List.mem_map.1 (List.mem_reverse.1 h)
  exact (of_mem_lacking hq).1

/-- There is one stand-in for each path. -/
theorem pairwise_standIns (p : Path) :
    (items.standIns owner p).Pairwise fun d e => d.path ≠ e.path := by
  rw [standIns, List.pairwise_reverse, List.pairwise_map]
  refine (p.pairwise_ancestors.sublist (List.takeWhile_sublist _)).imp ?_
  intro q r h
  exact Path.ne_of_mem_ancestors h

/-- Once some stand-ins are stored, from the front, the others are still missing. -/
theorem standIns_storeAll_take (p : Path) (k : Nat) :
    (items.storeAll ((items.standIns owner p).take k)).standIns owner p =
      (items.standIns owner p).drop k := by
  induction p using Path.belowInduction with
  | root p hr =>
    rw [standIns_of_isRoot hr, standIns_of_isRoot hr, List.drop_nil]
  | below p s ih =>
    have hbelow : items.standIns owner (p.below s) =
        if p.isRoot = true ∨ items.IsLive p then []
        else items.standIns owner p ++ [Entry.standIn p owner] := standIns_below p s
    rw [hbelow]
    split
    · rename_i hend
      rw [List.take_nil, storeAll_nil, standIns_below, if_pos hend, List.drop_nil]
    · rename_i hnot
      obtain ⟨hr, hdead⟩ := not_or.1 hnot
      by_cases hk : k ≤ (items.standIns owner p).length
      · have hne : ∀ e ∈ (items.standIns owner p).take k, e.path ≠ p := fun e he =>
          Path.ne_of_mem_ancestors (path_mem_ancestors_of_mem_standIns (List.mem_of_mem_take he))
        have hnot' : ¬ (p.isRoot = true ∨
            (items.storeAll ((items.standIns owner p).take k)).IsLive p) := by
          rw [isLive_storeAll_of_not_mem hne]
          exact hnot
        rw [List.take_append_of_le_length hk, standIns_below, if_neg hnot', ih,
          List.drop_append_of_le_length hk]
      · -- the path itself is live already
        have hall : (items.standIns owner p ++ [Entry.standIn p owner]).length ≤ k := by
          rw [List.length_append, List.length_singleton]
          omega
        have hlive :
            (items.storeAll (items.standIns owner p ++ [Entry.standIn p owner])).IsLive p := by
          rw [storeAll_append, storeAll_cons, storeAll_nil, IsLive, kind?_store,
            if_pos ⟨rfl, by simpa using hr⟩]
          exact Option.some_ne_none Kind.directory
        rw [List.take_of_length_le hall, List.drop_eq_nil_of_le hall, standIns_below,
          if_pos (.inr hlive)]

/-- The same when entries that are no ancestors are stored after the stand-ins. -/
theorem standIns_storeAll_take_append {p : Path} {es : List Entry}
    (h : ∀ e ∈ es, e.path ∉ p.ancestors) (k : Nat) :
    (items.storeAll ((items.standIns owner p ++ es).take k)).standIns owner p =
      (items.standIns owner p).drop k := by
  have hcongr : (items.storeAll ((items.standIns owner p ++ es).take k)).lacking p =
      (items.storeAll ((items.standIns owner p).take k)).lacking p := by
    refine lacking_congr ?_
    intro q hq
    rw [List.take_append, storeAll_append]
    refine isLive_storeAll_of_not_mem ?_
    rintro e he rfl
    exact h e (List.mem_of_mem_take he) hq
  exact (congrArg (fun ps => (ps.map (Entry.standIn · owner)).reverse) hcongr).trans
    (standIns_storeAll_take p k)

/-- Storing some of the entries, from the front, and then what is missing with all the others, comes
to storing all of them. -/
theorem storeAll_take_storeAll_standIns {p : Path} {es : List Entry}
    (h : ∀ e ∈ es, e.path ∉ p.ancestors) (k : Nat) :
    (items.storeAll ((items.standIns owner p ++ es).take k)).storeAll
      ((items.storeAll ((items.standIns owner p ++ es).take k)).standIns owner p ++ es) =
        items.storeAll (items.standIns owner p ++ es) := by
  rw [standIns_storeAll_take_append h]
  have hmin : (items.standIns owner p).drop k ++ es =
      (items.standIns owner p ++ es).drop (min k (items.standIns owner p).length) := by
    rw [List.drop_append_of_le_length (Nat.min_le_right ..)]
    congr 1
    rw [List.drop_eq_drop_iff]
    omega
  rw [hmin]
  exact storeAll_take_storeAll_drop (Nat.min_le_left ..)

end Items

/-! ## Looking for them -/

open Operation

variable {t : String} {time : Int64}

/-- Every ancestor has a key. -/
theorem Path.ancestorKeys_eq (p : Path) :
    ∃ keys : List (Path × Key), p.ancestorKeys = .ok keys ∧ keys.map Prod.fst = p.ancestors ∧
      ∀ x ∈ keys, x.1.key? = some x.2 := by
  suffices h : ∀ qs : List Path, (∀ q ∈ qs, q.isRoot = false) →
      ∃ keys : List (Path × Key), (qs.mapM fun q => q.key.map fun key => (q, key)) = .ok keys ∧
        keys.map Prod.fst = qs ∧ ∀ x ∈ keys, x.1.key? = some x.2 from
    h p.ancestors fun _ => isRoot_of_mem_ancestors
  intro qs hqs
  induction qs with
  | nil => exact ⟨[], rfl, rfl, by simp⟩
  | cons q qs ih =>
    obtain ⟨key, hkey⟩ := exists_key?_of_isRoot (hqs q List.mem_cons_self)
    obtain ⟨keys, hkeys, hfst, hall⟩ := ih fun r hr => hqs r (List.mem_cons_of_mem q hr)
    refine ⟨(q, key) :: keys, ?_, by rw [List.map_cons, hfst], ?_⟩
    · rw [List.mapM_cons, key_of_key? hkey, hkeys]
      rfl
    · intro x hx
      rcases List.mem_cons.1 hx with rfl | hx
      · exact hkey
      · exact hall x hx

namespace Entry

theorem always_standInsUntilLive {owner : String} {st : Option Items} (keys : List (Path × Key))
    (hkeys : ∀ x ∈ keys, x.1.key? = some x.2) :
    (standInsUntilLive t owner keys).Always (tableWorld t time) st
      fun r st' => EndsIn (fun above st' => st' = st ∧ ∀ items, st = some items → above =
        ((keys.map Prod.fst).takeWhile fun q => !decide (items.IsLive q)).map (standIn · owner))
          (· = st) r st' := by
  induction keys with
  | nil => exact ⟨rfl, fun _ _ => rfl⟩
  | cons x keys ih =>
    obtain ⟨path, key⟩ := x
    have hkey : path.key? = some key := hkeys _ List.mem_cons_self
    rw [standInsUntilLive, Program.always_bind, Program.always_ask]
    intro answer st' h
    replace h := served_of_answers (r := .getItem t key) rfl h
    cases answer with
    | error e => exact h
    | ok found =>
      obtain ⟨rfl, items, rfl, rfl⟩ := h
      have hlive : (items.item? key).any Item.isLive = decide (items.IsLive path) := by
        rw [Bool.eq_iff_iff, decide_eq_true_iff, Items.isLive_iff_any,
          Items.at?_of_key? items hkey]
      dsimp only
      rw [hlive]
      split
      · rename_i hl
        refine ⟨rfl, ?_⟩
        rintro _ ⟨⟩
        simp [of_decide_eq_true hl]
      · rename_i hl
        rw [Program.always_bind]
        refine (ih fun y hy => hkeys y (List.mem_cons_of_mem _ hy)).imp ?_
        intro r st' hr
        cases r with
        | error e => exact hr
        | ok above =>
          refine ⟨hr.1, ?_⟩
          rintro _ ⟨⟩
          rw [hr.2 items rfl]
          simp [of_decide_eq_false (eq_false_of_ne_true hl)]

theorem always_missingAncestors {owner : String} {items : Items} {e : Entry}
    {keys : List (Path × Key)} (hfst : keys.map Prod.fst = e.path.ancestors)
    (hkeys : ∀ x ∈ keys, x.1.key? = some x.2) :
    (e.missingAncestors t owner keys).Always (tableWorld t time) (some items) fun r st =>
      EndsIn (fun es st => st = some items ∧ es = items.withMissing owner e) (· = some items)
        r st := by
  unfold missingAncestors
  rw [Program.always_bind]
  refine (always_standInsUntilLive keys hkeys).imp ?_
  intro r st' hr
  cases r with
  | error e => exact hr
  | ok above =>
    refine ⟨hr.1, ?_⟩
    rw [hr.2 items rfl, hfst]
    rfl

end Entry

namespace Store

variable {s : Store} {m : Memory}

/-- A store finds the ancestors that its table lacks, and leaves the items alone. -/
theorem always_withMissingAncestors (items : Items) (e : Entry) :
    (s.withMissingAncestors e).Always (tableWorld s.table time) m (some items) fun r _ st =>
      EndsIn (fun es st => st = some items ∧ es = items.withMissing s.owner e) (· = some items)
        r st := by
  unfold withMissingAncestors
  obtain ⟨keys, hok, hfst, hkeys⟩ := e.path.ancestorKeys_eq
  rw [hok, always_ofPath_ok]
  refine Client.always_retry ?_ m rfl
  rintro _ rfl
  exact Entry.always_missingAncestors hfst hkeys

end Store

end TableTree
