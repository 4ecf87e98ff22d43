import TableTree.Proofs.Readings
import TableTree.Proofs.Undisturbed.Store

/-!
# The effect of storing an entry

An entry is stored with stand-ins for its nearest ancestors, up to the first live one. What is read
afterwards is read of the entry as the table keeps it, and of the stand-ins. Above the first live
ancestor the table is trusted and left as it is.

Results:

* `Entry.ofItem?_itemAt`: what the table keeps of an entry.
* `Items.at?_storeAll_of_mem`: entries of different paths each leave their item.
* `Items.mem_lacking_iff`: the ancestors that get a stand-in.
* `Store.put_effect`: the items and the readings after an entry was stored.
* `Store.isLive_put_iff`: the ancestors that are live after an entry was stored alone, and after it
  was stored with all of them.
-/

namespace TableTree

open Operation

/-! ## What the table keeps -/

namespace Entry

/-- What the table keeps of an entry: neither its owner nor what is known about its children, and of
a directory no time and no sizes. -/
def kept (e : Entry) (owner : String) : Entry :=
  { e with
    modTime := if e.isDir then 0 else e.modTime
    length := if e.isDir then 0 else e.length
    blockSize := if e.isDir then 0 else e.blockSize
    owner := owner
    emptiness := .unknown }

/-- An entry is read back as the table keeps it. -/
theorem ofItem?_itemAt {e : Entry} {key : Key} (h : e.path.key? = some key) (owner : String) :
    ofItem? (e.itemAt key) owner = some (e.kept owner) := by
  have hpath : (e.itemAt key).key.path? = some e.path := by
    rw [key_itemAt]
    exact Path.path?_of_key? h
  rw [ofItem?, hpath, Option.map_some]
  congr 1
  unfold itemAt kept directory file
  cases e.isDir <;>
    simp [Item.bool?, Item.long?, Item.setBool, Item.setLong, Item.get?_set, Attribute.isDir,
      Attribute.isDeleted, Attribute.length, Attribute.modTime, Attribute.blockSize]

end Entry

namespace Items

variable {items : Items} {owner : String} {p q : Path}

/-- Each of several entries of different paths leaves its item. -/
theorem at?_storeAll_of_mem {es : List Entry} (hes : es.Pairwise fun d e => d.path ≠ e.path)
    {e : Entry} (he : e ∈ es) : (items.storeAll es).at? e.path = e.item? := by
  induction es generalizing items with
  | nil => exact absurd he List.not_mem_nil
  | cons d es ih =>
    obtain ⟨hd, hes⟩ := List.pairwise_cons.1 hes
    rw [storeAll_cons]
    rcases List.mem_cons.1 he with rfl | he
    · rw [at?_storeAll_of_not_mem fun x hx => (hd x hx).symm, at?_store, if_pos rfl]
    · exact ih hes he

/-- A path at which a live entry is stored, and no other one, is live. -/
theorem isLive_storeAll_of_mem {es : List Entry} (hes : es.Pairwise fun d e => d.path ≠ e.path)
    {e : Entry} (he : e ∈ es) (hr : e.path.isRoot = false) (hlive : e.isLive = true) :
    (items.storeAll es).IsLive e.path := by
  obtain ⟨key, hkey⟩ := Path.exists_key?_of_isRoot hr
  rw [isLive_iff_any, at?_storeAll_of_mem hes he, Entry.item?_of_key? hkey, Option.any_some,
    Entry.isLive_itemAt]
  exact hlive

/-! ## The ancestors that get a stand-in -/

/-- The other ancestors start with a live one. -/
theorem exists_ancestors_eq (items : Items) (p : Path) :
    ∃ far, p.ancestors = items.lacking p ++ far ∧ ∀ q, far.head? = some q → items.IsLive q := by
  refine ⟨p.ancestors.dropWhile fun q => !decide (items.IsLive q),
    List.takeWhile_append_dropWhile.symm, fun q hq => ?_⟩
  have hstop := List.head?_dropWhile_not (fun q => !decide (items.IsLive q)) p.ancestors
  rw [hq] at hstop
  simpa using hstop

/-- An ancestor gets a stand-in if neither it nor an ancestor below it is live. -/
theorem mem_lacking_iff :
    q ∈ items.lacking p ↔
      q ∈ p.ancestors ∧ ∀ r ∈ p.ancestors, r.isUnder q = true → ¬ items.IsLive r := by
  constructor
  · intro h
    obtain ⟨far, heq, -⟩ := items.exists_ancestors_eq p
    refine ⟨(of_mem_lacking h).1, fun r hr hu => ?_⟩
    have hpair := p.pairwise_ancestors
    rw [heq, List.pairwise_append] at hpair
    rcases List.mem_append.1 (heq ▸ hr) with hr | hr
    · exact (of_mem_lacking hr).2
    · -- the ancestors further up are above `q`
      have hdepth := Path.depth_lt_of_mem_ancestors (hpair.2.2 q h r hr)
      have := Path.depth_le_of_isUnder hu
      omega
  · rintro ⟨hq, hdead⟩
    obtain ⟨far, heq, hfar⟩ := items.exists_ancestors_eq p
    rcases List.mem_append.1 (heq ▸ hq) with hq | hq
    · exact hq
    · cases far with
      | nil => exact absurd hq List.not_mem_nil
      | cons r far =>
        have hr : r ∈ p.ancestors := heq ▸ List.mem_append_right _ List.mem_cons_self
        refine absurd (hfar r rfl) (hdead r hr ?_)
        have hpair := p.pairwise_ancestors
        rw [heq, List.pairwise_append, List.pairwise_cons] at hpair
        rcases List.mem_cons.1 hq with rfl | hq
        · exact q.isUnder_refl
        · exact Path.isUnder_of_mem_ancestors (hpair.2.1.1 q hq)

/-! ## Storing an entry with them -/

theorem standIn_mem_withMissing {e : Entry} (h : q ∈ items.lacking e.path) :
    Entry.standIn q owner ∈ items.withMissing owner e :=
  List.mem_append_left _ (List.mem_reverse.2 (List.mem_map.2 ⟨q, h, rfl⟩))

theorem mem_withMissing {e : Entry} (h : e.path.isRoot = false) :
    e ∈ items.withMissing owner e :=
  List.mem_append_right _ (by simp [h])

/-- The ancestors that get a stand-in are live afterwards, and the others as before. -/
theorem isLive_storeAll_withMissing_iff {e : Entry} (hq : q ∈ e.path.ancestors) :
    (items.storeAll (items.withMissing owner e)).IsLive q ↔
      items.IsLive q ∨ q ∈ items.lacking e.path := by
  by_cases hmem : q ∈ items.lacking e.path
  · refine iff_of_true ?_ (.inr hmem)
    exact isLive_storeAll_of_mem (e := .standIn q owner) (pairwise_withMissing e)
      (standIn_mem_withMissing hmem) (Path.isRoot_of_mem_ancestors hq) rfl
  · rw [or_iff_left hmem]
    refine isLive_storeAll_of_not_mem ?_
    rintro d hd rfl
    rcases (of_mem_withMissing hd).2 with rfl | ⟨hd, -⟩
    · exact Path.ne_of_mem_ancestors hq rfl
    · exact hmem hd

/-- Storing an entry with all its ancestors leaves these live. -/
theorem isLive_storeAll_withAncestors {e : Entry} (hq : q ∈ e.path.ancestors) :
    (items.storeAll (Entry.withAncestors [e] owner)).IsLive q := by
  have hr := Path.isRoot_of_mem_ancestors_of hq
  obtain ⟨d, hd, rfl⟩ : ∃ d ∈ Entry.withAncestors [e] owner, d.path = q :=
    Entry.exists_mem_withAncestors.2 ⟨e, List.mem_singleton_self e, hr, .inr hq⟩
  obtain ⟨hroot, hde | ⟨hde, -⟩⟩ := Entry.of_mem_withAncestors hd
  · exact absurd (congrArg Entry.path (List.mem_singleton.1 hde)) (Path.ne_of_mem_ancestors hq)
  · refine isLive_storeAll_of_mem (Entry.pairwise_path_withAncestors [e]) hd hroot ?_
    rw [hde]
    rfl

end Items

/-! ## A store that was bound stays bound -/

namespace Store

variable {s : Store} {m : Memory} {h : Host Service} {items : Items}

theorem isBound_of_alike {m' : Memory} (hm : m.Alike m') : isBound m' = isBound m := by
  rw [isBound, isBound, hm.binding_eq, hm.destroyed_eq]

/-- What is done with a store that succeeds, and that starts by binding, succeeds in binding. -/
theorem exists_run_prepare_of_bound_bind {α : Type} {f : Binding → Operation α} {a : α}
    (hok : ((s.bound >>= f).run Service.backend m h).outcome = .ok a) :
    (s.prepare.run Service.backend m h).outcome = .ok () ∧
      ∃ binding, (s.bound >>= f).run Service.backend m h =
        (f binding).run Service.backend (s.prepare.run Service.backend m h).memory
          (s.prepare.run Service.backend m h).host := by
  obtain ⟨binding, m₁, h₁, hfirst, hrun⟩ := exists_run_of_run_bind hok
  have hprepare : s.prepare.run Service.backend m h = ⟨.ok (), m₁, h₁⟩ := run_bind_of_ok hfirst
  rw [hprepare]
  exact ⟨rfl, binding, hrun⟩

/-- An entry was stored by a store that is bound, and stays so. -/
theorem isBound_of_put {e : Entry} (hok : ((s.put e).run Service.backend m h).outcome = .ok ()) :
    (s.prepare.run Service.backend m h).outcome = .ok () ∧
      isBound ((s.put e).run Service.backend m h).memory = true := by
  obtain ⟨hprepare, binding, hrun⟩ := exists_run_prepare_of_bound_bind hok
  refine ⟨hprepare, ?_⟩
  have hrest : (s.withMissingAncestors e >>= fun entries => s.writeEntries [] entries >>=
      fun _ => pure ()).Remembers :=
    ((remembers_ofResult _).bind fun _ => Client.remembers_retry).bind fun _ =>
      ((remembers_ofResult _).bind fun _ => Client.remembers_writeAll ..).bind fun _ =>
        (idle_pure ()).remembers
  rw [show (s.put e).run Service.backend m h = _ from hrun,
    isBound_of_alike (hrest Service.backend _ _)]
  exact isBound_of_prepare hprepare

/-- What is read of a path before something is done that starts by binding and succeeds, when nothing
fails: what the items tell. -/
theorem outcome_get_planned (hitems : h.state.items? s.table = some items) {throttles faults : Nat}
    {leftovers : Std.ExtTreeMap Nat Nat}
    (hok : (s.prepare.run Service.backend m
      (h.planned ⟨throttles, faults, leftovers, 0, []⟩)).outcome = .ok ()) (q : Path) :
    ((s.get q false).run Service.backend m (h.planned {})).outcome =
      .ok (items.lookup? s.owner q) := by
  have hmirrors := s.transparent_prepare m m _ _ (.refl m)
    (h.undisturbed_planned throttles faults leftovers) () hok
  have hprepare := hmirrors.outcome_eq.trans hok
  have hbound : s.prepare.Always (tableWorld s.table h.now) m (some items)
      fun _ _ st => st = some items :=
    (always_bound items).bind (fun _ _ _ h => h) fun _ _ _ h => h
  rw [← hitems] at hbound
  have hitems' := (hbound.run (h := h.planned {}) (Service.within_tableWorld s.table h.now) rfl
    rfl).1
  have hplan := hmirrors.host.state.plan_eq
  unfold get
  rw [run_bound_bind hprepare]
  exact outcome_get_of_isBound (isBound_of_prepare hprepare)
    ⟨by rw [hplan], by rw [hplan]⟩ (hitems'.trans hitems) q

/-- **The effect of storing an entry.** Suppose that an entry which is no root is stored, whatever the
table holds and however the service throttles, fails and leaves out writes on the way. Its ancestors
are those nearest to it, none of them live, and then a live one with those above it, or no others.
The items have changed in the item of the entry and in those of the nearest ancestors, which are live
directories now. So the entry is read as the table keeps it, and all else is read as before, but for
the nearest ancestors. -/
theorem put_effect (s : Store) (m : Memory) (h : Host Service) (throttles faults : Nat)
    (leftovers : Std.ExtTreeMap Nat Nat) (items : Items) (e : Entry)
    (hroot : e.path.isRoot = false) (hitems : h.state.items? s.table = some items)
    (hok : ((s.put e).run Service.backend m
      (h.planned ⟨throttles, faults, leftovers, 0, []⟩)).outcome = .ok ()) :
    let run := (s.put e).run Service.backend m (h.planned ⟨throttles, faults, leftovers, 0, []⟩)
    let before (q : Path) := ((s.get q false).run Service.backend m (h.planned {})).outcome
    let after (q : Path) :=
      ((s.get q false).run Service.backend run.memory (run.host.planned {})).outcome
    ∃ (items' : Items) (near far : List Path),
      run.host.state.items? s.table = some items' ∧
      e.path.ancestors = near ++ far ∧ (∀ q ∈ near, ¬ items.IsLive q) ∧
      (∀ q, far.head? = some q → items.IsLive q) ∧
      items'.at? e.path = e.item? ∧
      (∀ q ∈ near, items'.at? q = (Entry.directory q s.owner).item?) ∧
      (∀ key, e.path.key? ≠ some key → (∀ q ∈ near, q.key? ≠ some key) →
        items'.item? key = items.item? key) ∧
      after e.path = .ok (some (e.kept s.owner)) ∧
      ∀ q, q ≠ e.path → q ∉ near → after q = before q ∧ ∃ found, before q = .ok found := by
  intro run before after
  obtain ⟨hprepare, hbound⟩ := isBound_of_put hok
  have hbefore (q : Path) : before q = .ok (items.lookup? s.owner q) :=
    outcome_get_planned hitems hprepare q
  have hitems' : run.host.state.items? s.table =
      some (items.storeAll (items.withMissing s.owner e)) :=
    Commits.items?_of_run (h := h.planned ⟨throttles, faults, leftovers, 0, []⟩) (s.always_put e m)
      rfl hitems hok
  have hfine : (run.host.planned {}).state.NeverFails := ⟨rfl, rfl⟩
  have hafter (q : Path) : after q = .ok (Items.lookup? _ s.owner q) :=
    outcome_get_of_isBound hbound hfine hitems' q
  have hpaths : (items.withMissing s.owner e).Pairwise fun d d' => d.path ≠ d'.path :=
    Items.pairwise_withMissing e
  obtain ⟨far, hancestors, hfar⟩ := items.exists_ancestors_eq e.path
  obtain ⟨key, hkey⟩ := Path.exists_key?_of_isRoot hroot
  have hself : (items.storeAll (items.withMissing s.owner e)).at? e.path = e.item? :=
    Items.at?_storeAll_of_mem hpaths (Items.mem_withMissing hroot)
  have hother {d : Entry} (hd : d ∈ items.withMissing s.owner e) :
      d = e ∨ d.path ∈ items.lacking e.path :=
    (Items.of_mem_withMissing hd).2.imp id And.left
  refine ⟨_, items.lacking e.path, far, hitems', hancestors,
    fun q hq => (Items.of_mem_lacking hq).2, hfar, hself, fun q hq => ?_, fun key hne hnear => ?_,
    ?_, fun q hne hnear => ?_⟩
  · exact Items.at?_storeAll_of_mem hpaths (Items.standIn_mem_withMissing hq)
  · refine Items.item?_storeAll_of_not_mem fun d hd => ?_
    rcases hother hd with rfl | hd
    · exact hne
    · exact hnear d.path hd
  · rw [hafter, Items.lookup?, hroot, hself, Entry.item?_of_key? hkey]
    exact congrArg Except.ok (Entry.ofItem?_itemAt hkey s.owner)
  · rw [hafter, hbefore, Items.lookup?, Items.lookup?, Items.at?_storeAll_of_not_mem]
    · exact ⟨rfl, _, rfl⟩
    · rintro d hd rfl
      rcases hother hd with rfl | hd
      · exact hne rfl
      · exact hnear hd

end Store

namespace Sample

/-- A store with an owner of its own. -/
def ownedStore : Store := ⟨{ store.settings with owner := "me" }⟩

/-- A file is stored below a missing directory, while two requests are throttled, one fails, and a
write is left out. -/
theorem put_effect_file :
    let e : Entry := .file file 1 2 3 "o"
    let run := (ownedStore.put e).run Service.backend stage.memory
      (stage.host.planned ⟨2, 1, .ofList [(0, 1)], 0, []⟩)
    file.isRoot = false ∧ run.outcome = .ok () ∧ run.host.state.counts.batchSizes = [2, 1] ∧
      ∃ items, stage.host.state.items? ownedStore.table = some items ∧
      ∃ items' near far, run.host.state.items? ownedStore.table = some items' ∧
        file.ancestors = near ++ far ∧ (∀ q ∈ near, ¬ items.IsLive q) ∧
        (∀ q, far.head? = some q → items.IsLive q) ∧ items'.at? file = e.item? ∧
        ((ownedStore.get file false).run Service.backend run.memory (run.host.planned {})).outcome =
          .ok (some { e with owner := "me" }) := by
  intro e run
  have hok : run.outcome = .ok () := by decide +kernel
  obtain ⟨createdAt, hitems⟩ := isMade_stage.items?_eq
  obtain ⟨items', near, far, hitems', hancestors, hnear, hfar, hself, -, -, hread, -⟩ :=
    Store.put_effect ownedStore stage.memory stage.host 2 1 (.ofList [(0, 1)]) _ e rfl hitems hok
  exact ⟨rfl, hok, by decide +kernel, _, hitems, items', near, far, hitems', hancestors, hnear, hfar,
    hself, hread⟩

end Sample

/-! ## Which ancestors are live afterwards -/

/-- Ancestors are live after those of `p` up to the first live one were made live: all of them, if
the live ones had live ancestors. -/
theorem Items.forall_isLive_or_mem_lacking_iff {items : Items} {p : Path} :
    (∀ q ∈ p.ancestors, items.IsLive q ∨ q ∈ items.lacking p) ↔
      ∀ r ∈ p.ancestors, items.IsLive r → ∀ q ∈ r.ancestors, items.IsLive q := by
  constructor
  · intro h r hr hlive q hq
    refine (h q (Path.ancestors_trans hr hq)).resolve_right fun hmem => ?_
    exact (mem_lacking_iff.1 hmem).2 r hr (Path.isUnder_of_mem_ancestors hq) hlive
  · intro h q hq
    refine Classical.or_iff_not_imp_left.2 fun hdead =>
      mem_lacking_iff.2 ⟨hq, fun r hr hu hlive => ?_⟩
    by_cases hne : r = q
    · exact hdead (hne ▸ hlive)
    · exact hdead (h r hr hlive q
        (Path.mem_ancestors_of_isUnder hu hne (Path.isRoot_of_mem_ancestors hq)))

namespace Store

/-- **Which ancestors are live after an entry is stored.** In any table, storing an entry makes its
ancestors live up to the first that is, so an ancestor is live afterwards if it was before or if
nothing was between it and the entry. All are live exactly when the live ones had live ancestors.
Storing it in a list makes all of them live. -/
theorem isLive_put_iff (s : Store) (m : Memory) (h : Host Service) (items : Items) (e : Entry)
    (hcalm : h.state.IsCalm) (hitems : h.state.items? s.table = some items) :
    (((s.put e).run Service.backend m h).outcome = .ok () →
      ∃ items', ((s.put e).run Service.backend m h).host.state.items? s.table = some items' ∧
        (∀ q ∈ e.path.ancestors, items'.IsLive q ↔ items.IsLive q ∨
          ∀ r ∈ e.path.ancestors, r.isUnder q = true → ¬ items.IsLive r) ∧
        ((∀ q ∈ e.path.ancestors, items'.IsLive q) ↔
          ∀ r ∈ e.path.ancestors, items.IsLive r → ∀ q ∈ r.ancestors, items.IsLive q)) ∧
    (((s.putAll [e]).run Service.backend m h).outcome = .ok () →
      ∃ items', ((s.putAll [e]).run Service.backend m h).host.state.items? s.table = some items' ∧
        ∀ q ∈ e.path.ancestors, items'.IsLive q) := by
  refine ⟨fun hok => ?_, fun hok => ?_⟩
  · have hitems' := Commits.items?_of_run (s.always_put e m) hcalm hitems hok
    refine ⟨_, hitems', fun q hq => ?_, ?_⟩
    · rw [Items.isLive_storeAll_withMissing_iff hq, Items.mem_lacking_iff]
      exact or_congr_right (and_iff_right hq)
    · rw [← Items.forall_isLive_or_mem_lacking_iff]
      exact forall₂_congr fun q hq => Items.isLive_storeAll_withMissing_iff hq
  · have hitems' := Commits.items?_of_run (s.always_putAll [e] m) hcalm hitems hok
    exact ⟨_, hitems', fun q hq => Items.isLive_storeAll_withAncestors hq⟩

end Store

namespace Sample

/-- A directory in the directory. -/
def innerDirectory : Path := directory.below ⟨"e", by decide⟩

/-- A file in that one. -/
def innerFile : Path := innerDirectory.below ⟨"i", by decide⟩

/-- The inner directory is stored, with the outer one above it. -/
def putInnerDirectory : Step := { call := .put (.directory innerDirectory "o"), now := 6 }

/-- The file in the inner directory is stored. -/
def putInnerFile : Step := { call := .put (.file innerFile 1 2 3 "o"), now := 8 }

/-- The same, in a list, the first request being throttled. -/
def putAllInnerFile : Step :=
  { call := .putAll [.file innerFile 1 2 3 "o"], now := 8, throttles := 1 }

/-- The service after the outer directory was deleted alone. -/
def severedHost : Host Service :=
  (stage.run store [putInnerDirectory, deleteDirectory]).hostOf putAllInnerFile

/-- Storing the file leaves the outer directory dead then, and storing it in a list does not. -/
theorem isLive_put_iff_severed :
    ∃ items, severedHost.state.IsCalm ∧ severedHost.state.items? store.table = some items ∧
    ((store.put (.file innerFile 1 2 3 "o")).run Service.backend {} severedHost).outcome = .ok () ∧
    ((store.putAll [.file innerFile 1 2 3 "o"]).run Service.backend {} severedHost).outcome =
      .ok () ∧
    (∃ items', ((store.put (.file innerFile 1 2 3 "o")).run Service.backend {}
        severedHost).host.state.items? store.table = some items' ∧ ¬ items'.IsLive directory) ∧
    ∃ items', ((store.putAll [.file innerFile 1 2 3 "o"]).run Service.backend {}
        severedHost).host.state.items? store.table = some items' ∧ items'.IsLive directory := by
  have hrun : (severedHost.state.items? store.table).any fun items =>
      items.IsLive innerDirectory ∧ ¬ items.IsLive directory := by decide +kernel
  obtain ⟨items, hitems, hlive⟩ := (Option.any_eq_true _ _).1 hrun
  obtain ⟨hinner, houter⟩ := of_decide_eq_true hlive
  have hok : ((store.put (.file innerFile 1 2 3 "o")).run Service.backend {}
      severedHost).outcome = .ok () := by decide +kernel
  have hokAll : ((store.putAll [.file innerFile 1 2 3 "o"]).run Service.backend {}
      severedHost).outcome = .ok () := by decide +kernel
  obtain ⟨hput, hputAll⟩ :=
    Store.isLive_put_iff store {} severedHost items (.file innerFile 1 2 3 "o") rfl hitems
  obtain ⟨items', hitems', hiff, -⟩ := hput hok
  obtain ⟨itemsAll, hitemsAll, hall⟩ := hputAll hokAll
  have hmem : directory ∈ innerFile.ancestors := by decide +kernel
  refine ⟨items, rfl, hitems, hok, hokAll, ⟨items', hitems', fun hdir => ?_⟩, itemsAll, hitemsAll,
    hall directory hmem⟩
  have hmemInner : innerDirectory ∈ innerFile.ancestors := by decide +kernel
  rcases (hiff directory hmem).1 hdir with hdir | hdead
  · exact houter hdir
  · exact hdead innerDirectory hmemInner (by decide +kernel) hinner

/-- A directory that was deleted alone stays dead when a file is stored two levels below it, with all
calls succeeding. -/
theorem not_isLive_directory_putInnerFile :
    stage.IsMade store ∧
    Stage.Succeeds store stage [putInnerDirectory, deleteDirectory, putInnerFile] ∧
    putInnerFile.call = .put (.file innerFile 1 2 3 "o") ∧ innerFile.isRoot = false ∧
    (Entry.file innerFile 1 2 3 "o").isLive = true ∧ directory ∈ innerFile.ancestors ∧
    ∃ items,
      (Stage.run store stage [putInnerDirectory, deleteDirectory, putInnerFile]).items? store =
        some items ∧ ¬ items.IsLive directory := by
  have hrun : ((Stage.run store stage [putInnerDirectory, deleteDirectory, putInnerFile]).items?
      store).any fun items => ¬ items.IsLive directory := by decide +kernel
  obtain ⟨items, hitems, hdead⟩ := (Option.any_eq_true _ _).1 hrun
  exact ⟨isMade_stage, by decide +kernel, rfl, rfl, rfl, by decide +kernel, items, hitems,
    of_decide_eq_true hdead⟩

end Sample

end TableTree
