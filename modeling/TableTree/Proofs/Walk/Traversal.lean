import TableTree.Proofs.Steady
import TableTree.Proofs.Walk.Order
import TableTree.Proofs.Walk.Reach

/-!
# A whole walk

A walk from an entry that need not be in the table visits the entry first. After it come the live
entries below it to which live directories lead, each once.

Results:

* `Items.walk_of_le`: further visits do not show in a walk that is over.
* `Items.LeadsTo`, `Items.mem_tail_walk_iff`: what is visited after the root of a walk.
* `Walk.visits_all_below`: a walk is complete, in order, and ends.
-/

namespace TableTree

open Operation

namespace Items

variable {items : Items} {owner : String}

/-- Further visits do not show in a walk that is over. -/
theorem walk_of_le {visits visits' : Nat} {queue es : List Entry} (hle : visits ≤ visits')
    (h : items.walk owner visits queue = some es) : items.walk owner visits' queue = some es := by
  fun_induction walk items owner visits queue generalizing visits' es with
  | case1 visits => rw [← h, walk]
  | case2 => cases h
  | case3 visits e queue ih =>
    obtain ⟨es', hes', rfl⟩ := Option.map_eq_some_iff.1 h
    obtain ⟨visits', rfl⟩ := Nat.exists_eq_succ_of_ne_zero (Nat.ne_zero_of_lt hle)
    rw [walk, ih (Nat.le_of_succ_le_succ hle) hes', Option.map_some]

/-- A walk visits the front of its queue first. -/
theorem exists_of_walk_cons {visits : Nat} {e : Entry} {queue es : List Entry}
    (h : items.walk owner visits (e :: queue) = some es) : ∃ rest, es = e :: rest := by
  cases visits with
  | zero => cases h
  | succ visits =>
    obtain ⟨rest, -, rfl⟩ := Option.map_eq_some_iff.1 h
    exact ⟨rest, rfl⟩

/-! ## What is visited after the root of a walk -/

/-- The live children of a path are what is read, and live, of the paths directly below it. -/
theorem mem_children_iff {p : Path} {c : Entry} : c ∈ items.children owner p ↔
    c.path.parent? = some p ∧ items.lookup? owner c.path = some c ∧ c.isLive = true := by
  show c ∈ (items.listed owner p).filter Entry.isLive ↔ _
  rw [List.mem_filter, mem_listed_iff, and_assoc]

/-- Whether a live directory is read of a path. -/
def HasLiveDirectory (items : Items) (owner : String) (p : Path) : Prop :=
  ∃ d, items.lookup? owner p = some d ∧ d.isLive = true ∧ d.isDir = true

/-- Whether `x` is a live entry properly below `root` that is read of its path, with live
directories only in between. Of `root` itself only the path and the kind count. -/
structure LeadsTo (items : Items) (owner : String) (root x : Entry) : Prop where
  isDir : root.isDir = true
  isUnder : x.path.isUnder root.path = true
  ne : x.path ≠ root.path
  lookup?_eq : items.lookup? owner x.path = some x
  isLive : x.isLive = true
  between : ∀ q : Path, x.path.isUnder q = true → q.isUnder root.path = true → q ≠ x.path →
    q ≠ root.path → items.HasLiveDirectory owner q

theorem leadsTo_of_mem_expand {root c : Entry} (hc : c ∈ items.expand owner root) :
    items.LeadsTo owner root c := by
  obtain ⟨hdir, hchild⟩ := of_mem_expand hc
  obtain ⟨s, hs⟩ := (childrenOf_children root.path).below c hchild
  obtain ⟨-, hlookup, hlive⟩ := mem_children_iff.1 hchild
  refine ⟨hdir, hs ▸ Path.below_isUnder root.path s, ?_, hlookup, hlive, ?_⟩
  · intro heq
    have := congrArg Path.depth (hs.symm.trans heq)
    rw [Path.depth_below] at this
    omega
  · -- nothing lies between a path and one directly below it
    intro q hq hu hne hne'
    rw [hs] at hq hne
    rcases Path.below_isUnder_iff.1 hq with rfl | hq
    · exact absurd rfl hne
    · have := Path.depth_le_of_isUnder hq
      have := Path.depth_le_of_isUnder hu
      exact absurd (Path.eq_of_isUnder_of_depth_eq hu (by omega)) hne'

/-- What a child leads to, its parent leads to as well if the child is a live directory. -/
theorem LeadsTo.of_mem_expand {root c x : Entry} (h : items.LeadsTo owner c x)
    (hc : c ∈ items.expand owner root) : items.LeadsTo owner root x := by
  have hroot := leadsTo_of_mem_expand hc
  obtain ⟨s, hs⟩ := (childrenOf_expand root).below c hc
  refine ⟨hroot.isDir, Path.isUnder_trans h.isUnder hroot.isUnder, ?_, h.lookup?_eq, h.isLive, ?_⟩
  · intro heq
    have hu := h.isUnder
    rw [heq, hs, Path.not_isUnder_below] at hu
    cases hu
  · intro q hq hu hne hne'
    by_cases hqc : q = c.path
    · exact ⟨c, hqc ▸ hroot.lookup?_eq, hroot.isLive, h.isDir⟩
    · have hdepth : c.path.depth ≤ q.depth := by
        rw [hs, Path.depth_below]
        refine Nat.lt_of_le_of_ne (Path.depth_le_of_isUnder hu) fun heq => hne' ?_
        exact Path.eq_of_isUnder_of_depth_eq hu heq.symm
      exact h.between q hq (Path.isUnder_of_isUnder hq h.isUnder hdepth) hne hqc

theorem Reaches.eq_or_leadsTo {root x : Entry} (h : items.Reaches owner root x) :
    x = root ∨ items.LeadsTo owner root x := by
  induction h with
  | refl => exact .inl rfl
  | step hc _ ih =>
    rcases ih with rfl | hx
    · exact .inr (leadsTo_of_mem_expand hc)
    · exact .inr (hx.of_mem_expand hc)

theorem LeadsTo.reaches {root x : Entry} (h : items.LeadsTo owner root x) :
    items.Reaches owner root x := by
  have hchild {y x : Entry} (hdir : y.isDir = true) (hparent : x.path.parent? = some y.path)
      (hlookup : items.lookup? owner x.path = some x) (hlive : x.isLive = true) :
      x ∈ items.expand owner y := by
    rw [expand, if_pos hdir]
    exact mem_children_iff.2 ⟨hparent, hlookup, hlive⟩
  -- from the parent of the path
  induction hp : x.path using Path.belowInduction generalizing x with
  | root p hr =>
    have hu := h.isUnder
    rw [hp] at hu
    exact absurd (hp.trans (Path.eq_of_isUnder_of_isRoot hu hr).symm) h.ne
  | below q s ih =>
    have hparent : x.path.parent? = some q := hp ▸ Path.parent?_below q s
    have hxq : x.path.isUnder q = true := hp ▸ Path.below_isUnder q s
    have hq : q.isUnder root.path = true := by
      have hu := h.isUnder
      rw [hp] at hu
      refine (Path.below_isUnder_iff.1 hu).resolve_left fun heq => h.ne (hp.trans heq.symm)
    have hshallow {r : Path} (hr : q.isUnder r = true) : r ≠ x.path := by
      rintro rfl
      have := Path.depth_le_of_isUnder hr
      rw [hp, Path.depth_below] at this
      omega
    by_cases hroot : q = root.path
    · exact .step (hchild h.isDir (hroot ▸ hparent) h.lookup?_eq h.isLive) (.refl x)
    · obtain ⟨d, hlookup, hlive, hdir⟩ := h.between q hxq hq (hshallow q.isUnder_refl) hroot
      obtain rfl := path_of_lookup? hlookup
      have hd : items.LeadsTo owner root d :=
        ⟨h.isDir, hq, hroot, hlookup, hlive, fun r hr hu _ hne' =>
          h.between r (Path.isUnder_trans hxq hr) hu (hshallow hr) hne'⟩
      exact (ih hd rfl).tail (hchild hdir hparent h.lookup?_eq h.isLive)

/-- The visits of a walk from an entry, after the entry itself. -/
theorem mem_tail_walk_iff {visits : Nat} {root : Entry} {below : List Entry}
    (h : items.walk owner visits [root] = some (root :: below)) {x : Entry} :
    x ∈ below ↔ items.LeadsTo owner root x := by
  have hpaths := Entry.pairwise_path_of_compareByDepth (pairwise_compareByDepth_walk h)
  have hmem : x ∈ root :: below ↔ items.Reaches owner root x := by
    rw [mem_walk_iff h]
    simp
  constructor
  · intro hx
    rcases (hmem.1 (List.mem_cons_of_mem root hx)).eq_or_leadsTo with rfl | hx'
    · exact absurd rfl (List.rel_of_pairwise_cons hpaths hx)
    · exact hx'
  · intro hx
    refine (List.mem_cons.1 (hmem.2 hx.reaches)).resolve_left ?_
    rintro rfl
    exact hx.ne rfl

/-- A walk from an entry visits it first. -/
theorem exists_walk_singleton (items : Items) (owner : String) (root : Entry) :
    ∃ below, ∀ visits, items.size < visits →
      items.walk owner visits [root] = some (root :: below) := by
  have hsome : items.walk owner (items.size + 1) [root] ≠ none :=
    walk_singleton_ne_none root (Nat.lt_succ_self items.size)
  obtain ⟨es, hes⟩ := Option.ne_none_iff_exists'.1 hsome
  obtain ⟨below, rfl⟩ := exists_of_walk_cons hes
  exact ⟨below, fun visits hvisits => walk_of_le hvisits hes⟩

end Items

namespace Walk

/-- **A walk is complete, in order, and ends.** A bound store walks from any entry through a table
with any items, while no request fails and nobody else writes. As soon as it may make a visit more
than there are items, the walk visits the entry and after it the live entries that are read of the
paths properly below, to which live directories lead; none if the entry is no directory. The paths
are in the order by depth, so none comes twice, no path comes before its parent, and paths with the
same parent come in the order of the bytes of their names. -/
theorem visits_all_below {s : Store} {items : Items} {m : Memory} {h : Host Service}
    (hs : s.Sees items m h) (root : Entry) :
    let read (q : Path) := ((s.get q false).run Service.backend m h).outcome
    ∃ below : List Entry,
      (∀ visits, items.size < visits →
        (((start root).collect? s visits).run Service.backend m h).outcome =
          .ok (some (root :: below))) ∧
      (∀ e, e ∈ below ↔ read e.path = .ok (some e) ∧ e.isLive = true ∧ root.isDir = true ∧
        e.path.isUnder root.path = true ∧ e.path ≠ root.path ∧
        ∀ q : Path, e.path.isUnder q = true → q.isUnder root.path = true → q ≠ e.path →
          q ≠ root.path → ∃ d, read q = .ok (some d) ∧ d.isLive = true ∧ d.isDir = true) ∧
      (root :: below).Pairwise (fun d e => Path.compareByDepth d.path e.path = .lt) ∧
      (root :: below).Pairwise (fun d e => d.path ≠ e.path) ∧
      (root :: below).Pairwise (fun d e => d.path.parent? ≠ some e.path) ∧
      (root :: below).Pairwise fun d e => ∀ p, d.path.parent? = some p →
        e.path.parent? = some p → Text.bytes d.path.name < Text.bytes e.path.name := by
  have hread (q : Path) : ((s.get q false).run Service.backend m h).outcome =
      .ok (items.lookup? s.owner q) := by
    rw [hs.outcome_get q false, Items.read?_false]
  obtain ⟨below, hbelow⟩ := items.exists_walk_singleton s.owner root
  have hwalk := hbelow _ (Nat.lt_succ_self items.size)
  have hsorted := Items.pairwise_compareByDepth_walk hwalk
  simp only [hread, Except.ok.injEq]
  refine ⟨below, fun visits hvisits => ?_, fun e => ?_, hsorted,
    Entry.pairwise_path_of_compareByDepth hsorted, ?_, ?_⟩
  · rw [hs.outcome_collect?, ← hbelow visits hvisits]
    rfl
  · rw [Items.mem_tail_walk_iff hwalk]
    constructor
    · exact fun he => ⟨he.lookup?_eq, he.isLive, he.isDir, he.isUnder, he.ne, he.between⟩
    · rintro ⟨hlookup, hlive, hdir, hu, hne, hbetween⟩
      exact ⟨hdir, hu, hne, hlookup, hlive, hbetween⟩
  · refine hsorted.imp fun {d e} hlt hparent => ?_
    have := Path.depth_le_of_compareByDepth hlt
    have := Path.depth_of_parent? hparent
    omega
  · refine hsorted.imp fun {d e} hlt p hd he => ?_
    obtain ⟨a, ha⟩ := Path.parent?_eq_some_iff.1 hd
    obtain ⟨b, hb⟩ := Path.parent?_eq_some_iff.1 he
    rw [ha, hb, Path.compareByDepth_eq_lt_iff, Path.depth_below, Path.depth_below] at hlt
    rw [ha, hb, Path.name_below, Path.name_below]
    exact Text.bytes_lt_bytes (Path.compare_below_lt_iff.1 (hlt.resolve_left (by omega)).2)

end Walk

/-! ## A sample -/

namespace Sample

/-- A path beside the directory. -/
def otherFile : Path := bucketRoot.below ⟨"s", by decide⟩

/-- The items of a table with a directory, a file in it and one beside it. There is a tombstone in
the directory with a live file below it, and a key that names no path. -/
def nestedItems : Items :=
  Items.applyAll ∅ [.put ((Item.bare ⟨"/b", "d"⟩).setBool Attribute.isDir true),
    .put ((Item.bare ⟨"/b/d", "f"⟩).setLong Attribute.length 7), .put (Item.bare ⟨"/b", "s"⟩),
    .put (((Item.bare ⟨"/b/d", "x"⟩).setBool Attribute.isDir true).setBool Attribute.isDeleted true),
    .put (Item.bare ⟨"/b/d/x", "y"⟩), .put (Item.bare ⟨"b", "q"⟩)]

/-- A walk from the root of the bucket visits the directory and the files. -/
theorem visits_all_below_nested :
    store.Sees nestedItems boundMemory (hosting nestedItems) ∧
      ∃ below : List Entry,
        (((Walk.start (.directory bucketRoot "o")).collect? store 7).run Service.backend boundMemory
          (hosting nestedItems)).outcome = .ok (some (.directory bucketRoot "o" :: below)) ∧
        below.map Entry.path = [directory, otherFile, file] ∧
        (Entry.directory bucketRoot "o" :: below).Pairwise fun d e =>
          Path.compareByDepth d.path e.path = .lt := by
  obtain ⟨below, hwalk, -, hsorted, -⟩ :=
    Walk.visits_all_below (sees_hosting nestedItems) (.directory bucketRoot "o")
  have hrun := hwalk 7 (by decide +kernel)
  have hpaths : ((((Walk.start (.directory bucketRoot "o")).collect? store 7).run Service.backend
      boundMemory (hosting nestedItems)).outcome.toOption.join.map (List.map Entry.path)) =
        some [bucketRoot, directory, otherFile, file] := by
    decide +kernel
  rw [hrun] at hpaths
  exact ⟨sees_hosting nestedItems, below, hrun, (List.cons.inj (Option.some.inj hpaths)).2, hsorted⟩

end Sample

end TableTree
