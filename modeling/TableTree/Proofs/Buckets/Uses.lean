import TableTree.Proofs.Buckets.Confined
import TableTree.Proofs.Calls
import TableTree.Proofs.Undisturbed.Store

/-!
# Using a store for paths of one bucket

What is read in the partitions of a bucket has its path in the bucket, and so have the ancestors of
such a path and whatever a walk finds below it. So a bound store that is used for paths of a bucket
sends nothing but requests about items of the bucket.

Results:

* `Store.confined_get`, `Store.confined_listChildren`: reading gives entries of the bucket.
* `Walk.confined_collect?`: a walk does not leave its bucket.
* `Store.confined_withMissingAncestors`: neither do the ancestors of an entry.
* `Use.IsIn`, `Use.confined_perform`: all uses of a store for paths of a bucket.
-/

namespace TableTree

open Operation

variable {α : Type} {t : String} {b : Bucket} {m : Memory}

/-! ## Writing entries -/

namespace Store

variable {s : Store}

/-- Writing entries of a bucket is confined to it. -/
theorem confined_writeEntries {es : List Entry} (hes : ∀ e ∈ es, e.path.bucket = b) :
    (s.writeEntries [] es).Confined s.table b m fun _ _ => True := by
  unfold writeEntries
  refine (confined_ofPath (P := fun items _ => Entry.items es = .ok items) fun _ h => h).bind ?_
  intro items m' hitems
  refine Client.confined_writeAll (c := s.client) rfl _ (fun _ h => absurd h List.not_mem_nil) ?_
  intro item hitem
  rw [Entry.eq_filterMap_of_items hitems] at hitem
  obtain ⟨e, he, hitem⟩ := List.mem_filterMap.1 hitem
  rw [← hes e he]
  exact Path.isIn_of_key? (Entry.key?_of_item? hitem)

/-! ## Reading -/

/-- A store that is bound sends nothing to bind. -/
theorem confined_bound_bind {f : Binding → Operation α} {P : α → Memory → Prop}
    (hm : isBound m = true) (hf : ∀ binding, (f binding).Confined t b m P) :
    (s.bound >>= f).Confined t b m P :=
  fun time st hlog => always_bound_bind_of_isBound hm fun binding => hf binding time st hlog

theorem confined_readEntry {path : Path} {key : Key} (hkey : path.key? = some key) (hint : Bool) :
    (s.readEntry path key hint).Confined s.table path.bucket fun r =>
      ∀ e, r = .ok e → ∀ d ∈ e, d.path = path := by
  unfold readEntry
  refine (Program.confined_ask (r := .getItem s.table key)
    (P := fun answer => ∀ found, answer = .ok found → ∀ item ∈ found, item.key = key)
    ⟨rfl, Path.isIn_of_key? hkey⟩ ?_).bind ?_
  · rintro answer st st' h found rfl item hitem
    obtain ⟨-, items, -, rfl⟩ := h
    obtain ⟨attributes, -, rfl⟩ := Option.map_eq_some_iff.1 hitem
    rfl
  · intro answer hanswer
    cases answer with
    | error e => exact Program.confined_pure nofun
    | ok found =>
      dsimp only
      split
      · refine Program.confined_pure ?_
        rintro _ ⟨⟩ d ⟨⟩
      · rename_i entry hentry
        have hpath : entry.path = path := by
          obtain ⟨item, hitem, hof⟩ := Option.bind_eq_some_iff.1 hentry
          have hread := (Entry.liveKind?_of_ofItem? hof).1
          rw [hanswer found rfl item hitem, Path.path?_of_key? hkey] at hread
          exact (Option.some.inj hread).symm
        split
        · refine (Program.confined_ask (r := .query s.table path.partition (some .live))
            (P := fun _ => True) ⟨rfl, Bucket.owns_partition path⟩ fun _ _ _ _ => trivial).bind ?_
          intro children _
          cases children with
          | error e => exact Program.confined_pure nofun
          | ok children =>
            refine Program.confined_pure ?_
            rintro _ ⟨⟩ d ⟨⟩
            exact hpath
        · refine Program.confined_pure ?_
          rintro _ ⟨⟩ d ⟨⟩
          exact hpath

/-- Reading an entry is confined to the bucket of its path. -/
theorem confined_get (hm : isBound m = true) (path : Path) (hint : Bool) :
    (s.get path hint).Confined s.table path.bucket m fun e m' =>
      m' = m ∧ ∀ d ∈ e, d.path = path := by
  unfold get
  refine confined_bound_bind hm fun _ => ?_
  cases hr : path.isRoot with
  | true =>
    refine confined_pure ⟨rfl, ?_⟩
    rintro d ⟨⟩
    rfl
  | false =>
    obtain ⟨key, hkey⟩ := Path.exists_key?_of_isRoot hr
    simp only [Bool.false_eq_true, if_false]
    rw [Path.key_of_key? hkey]
    exact Client.confined_once (confined_readEntry hkey hint)

/-- Listing the children of a path is confined to its bucket, where they lie. -/
theorem confined_listChildren (hm : isBound m = true) (path : Path) :
    (s.listChildren path).Confined s.table path.bucket m fun l m' =>
      m' = m ∧ ∀ listing ∈ l, ∀ e ∈ listing.entries, e.path.bucket = path.bucket := by
  unfold listChildren
  refine confined_bound_bind hm fun _ => ?_
  refine (Client.confined_once (Program.confined_ask (r := .query s.table path.partition none)
    (P := fun answer => ∀ found, answer = .ok found → ∀ item ∈ found,
      item.key.parent = path.partition) ⟨rfl, Bucket.owns_partition path⟩ ?_)).bind ?_
  · rintro answer st st' h found rfl item hitem
    obtain ⟨-, items, -, rfl⟩ := h
    exact of_decide_eq_true (List.mem_filter.1 (List.mem_filter.1 hitem).1).2
  · rintro found _ ⟨rfl, hfound⟩
    have hentries : ∀ e ∈ found.filterMap (Entry.ofItem? · s.owner),
        e.path.bucket = path.bucket := by
      intro e he
      obtain ⟨item, hitem, hof⟩ := List.mem_filterMap.1 he
      obtain ⟨name, hpath, -⟩ := Items.path_of_partition (hfound item hitem) hof
      rw [hpath]
      rfl
    dsimp only
    split
    · refine (confined_get hm path false).bind ?_
      rintro e _ ⟨rfl, -⟩
      refine confined_pure ⟨rfl, ?_⟩
      intro listing hlisting
      obtain ⟨-, -, rfl⟩ := Option.map_eq_some_iff.1 hlisting
      exact hentries
    · refine confined_pure ⟨rfl, ?_⟩
      rintro listing ⟨⟩
      exact hentries

end Store

/-- A walk through paths of a bucket is confined to it, and visits nothing else. -/
theorem Walk.confined_collect? {s : Store} (hm : Store.isBound m = true) (visits : Nat) (w : Walk)
    (hw : ∀ e ∈ w.queue, e.path.bucket = b) :
    (w.collect? s visits).Confined s.table b m fun es m' =>
      m' = m ∧ ∀ found ∈ es, ∀ e ∈ found, e.path.bucket = b := by
  have hover : ∀ found ∈ some ([] : List Entry), ∀ e ∈ found, e.path.bucket = b := by
    rintro _ ⟨⟩ e he
    cases he
  induction visits generalizing w with
  | zero =>
    obtain ⟨_ | ⟨e, queue⟩⟩ := w
    · exact confined_pure ⟨rfl, hover⟩
    · exact confined_pure ⟨rfl, nofun⟩
  | succ visits ih =>
    obtain ⟨_ | ⟨e, queue⟩⟩ := w
    · rw [collect?_nil]
      exact confined_pure ⟨rfl, hover⟩
    · rw [List.forall_mem_cons] at hw
      obtain ⟨rfl, hqueue⟩ := hw
      have hlisting : (if e.isDir then s.listChildren e.path else pure none).Confined s.table
          e.path.bucket m fun l m' => m' = m ∧ ∀ listing ∈ l, ∀ d ∈ listing.entries,
            d.path.bucket = e.path.bucket := by
        split
        · exact s.confined_listChildren hm e.path
        · exact confined_pure ⟨rfl, nofun⟩
      rw [collect?_cons]
      refine hlisting.bind ?_
      rintro l _ ⟨rfl, hl⟩
      refine (ih _ ?_).bind ?_
      · intro d hd
        rcases List.mem_append.1 hd with hd | hd
        · exact hqueue d hd
        · cases l with
          | none => cases hd
          | some listing => exact hl listing rfl d (List.mem_filter.1 hd).1
      · rintro es _ ⟨rfl, hes⟩
        refine confined_pure ⟨rfl, ?_⟩
        intro found hfound d hd
        obtain ⟨rest, hrest, rfl⟩ := Option.map_eq_some_iff.1 hfound
        rcases List.mem_cons.1 hd with rfl | hd
        · rfl
        · exact hes rest hrest d hd

/-! ## Ancestors -/

/-- An ancestor of a path is in its bucket. -/
theorem Path.bucket_of_mem_ancestors {p q : Path} (h : q ∈ p.ancestors) : q.bucket = p.bucket :=
  (isUnder_iff.1 (isUnder_of_mem_ancestors h)).1.symm

namespace Entry

variable {owner : String}

/-- The directories above entries of a bucket are in the bucket. -/
theorem bucket_of_mem_withAncestors {es : List Entry} (hes : ∀ e ∈ es, e.path.bucket = b) {d : Entry}
    (h : d ∈ withAncestors es owner) : d.path.bucket = b := by
  rcases (of_mem_withAncestors h).2 with hd | ⟨-, e, he, hd⟩
  · exact hes d hd
  · rw [Path.bucket_of_mem_ancestors hd]
    exact hes e he

theorem confined_standInsUntilLive (keys : List (Path × Key))
    (hkeys : ∀ x ∈ keys, x.1.bucket = b ∧ x.1.key? = some x.2) :
    (standInsUntilLive t owner keys).Confined t b fun r =>
      ∀ es, r = .ok es → ∀ e ∈ es, e.path.bucket = b := by
  have hnone : ∀ es, (.ok [] : Except ServiceError (List Entry)) = .ok es →
      ∀ e ∈ es, e.path.bucket = b := by
    rintro _ ⟨⟩ e he
    cases he
  induction keys with
  | nil => exact Program.confined_pure hnone
  | cons x keys ih =>
    obtain ⟨path, key⟩ := x
    rw [List.forall_mem_cons] at hkeys
    obtain ⟨⟨hbucket, hkey⟩, hkeys⟩ := hkeys
    have hin : key.IsIn b := hbucket ▸ Path.isIn_of_key? hkey
    rw [standInsUntilLive]
    refine (Program.confined_ask (r := .getItem t key) (P := fun _ => True) ⟨rfl, hin⟩
      fun _ _ _ _ => trivial).bind ?_
    intro answer _
    cases answer with
    | error e => exact Program.confined_pure (by rintro _ ⟨⟩)
    | ok found =>
      dsimp only
      split
      · exact Program.confined_pure hnone
      · refine (ih hkeys).bind ?_
        intro r hr
        cases r with
        | error e => exact Program.confined_pure (by rintro _ ⟨⟩)
        | ok above =>
          refine Program.confined_pure ?_
          rintro _ ⟨⟩ d hd
          rcases List.mem_cons.1 hd with rfl | hd
          · exact hbucket
          · exact hr above rfl d hd

theorem confined_missingAncestors {e : Entry} {keys : List (Path × Key)}
    (hkeys : ∀ x ∈ keys, x.1.bucket = e.path.bucket ∧ x.1.key? = some x.2) :
    (e.missingAncestors t owner keys).Confined t e.path.bucket fun r =>
      ∀ es, r = .ok es → ∀ d ∈ es, d.path.bucket = e.path.bucket := by
  unfold missingAncestors
  refine (confined_standInsUntilLive keys hkeys).bind ?_
  intro r hr
  cases r with
  | error e => exact Program.confined_pure (by rintro _ ⟨⟩)
  | ok above =>
    refine Program.confined_pure ?_
    rintro _ ⟨⟩ d hd
    rcases List.mem_append.1 hd with hd | hd
    · exact hr above rfl d (List.mem_reverse.1 hd)
    · split at hd
      · cases hd
      · rw [List.mem_singleton.1 hd]

end Entry

/-! ## Uses of a store -/

namespace Store

variable {s : Store}

theorem confined_withMissingAncestors (e : Entry) :
    (s.withMissingAncestors e).Confined s.table e.path.bucket m fun es _ =>
      ∀ d ∈ es, d.path.bucket = e.path.bucket := by
  unfold withMissingAncestors
  obtain ⟨keys, hok, hfst, hkeys⟩ := e.path.ancestorKeys_eq
  refine (confined_ofPath (P := fun ks _ => ks = keys) ?_).bind ?_
  · intro ks hks
    exact Except.ok.inj (hks.symm.trans hok)
  · rintro _ m' rfl
    refine Client.confined_retry (Entry.confined_missingAncestors fun x hx => ⟨?_, hkeys x hx⟩)
    exact Path.bucket_of_mem_ancestors (hfst ▸ List.mem_map_of_mem hx)

theorem confined_put (hm : isBound m = true) (e : Entry) :
    (s.put e).Confined s.table e.path.bucket m fun _ _ => True := by
  unfold put
  refine confined_bound_bind hm fun _ => (confined_withMissingAncestors e).bind ?_
  exact fun es m' hes => (confined_writeEntries hes).discard

theorem confined_putAll (hm : isBound m = true) {es : List Entry}
    (hes : ∀ e ∈ es, e.path.bucket = b) :
    (s.putAll es).Confined s.table b m fun _ _ => True := by
  unfold putAll
  refine confined_bound_bind hm fun _ => (confined_writeEntries ?_).discard
  exact fun d hd => Entry.bucket_of_mem_withAncestors hes hd

theorem confined_putListing (hm : isBound m = true) {l : Listing}
    (hl : ∀ e ∈ l.entries, e.path.bucket = l.path.bucket) :
    (s.putListing l).Confined s.table l.path.bucket m fun _ _ => True := by
  unfold putListing
  refine confined_bound_bind hm fun _ => (confined_withMissingAncestors (l.directory s.owner)).bind ?_
  intro above m' habove
  refine (confined_writeEntries ?_).discard
  intro d hd
  rcases List.mem_append.1 (Entry.mem_of_mem_keepLast hd) with hd | hd
  · exact habove d hd
  · exact hl d (List.mem_filter.1 hd).1

theorem confined_delete (hm : isBound m = true) (path : Path) :
    (s.delete path).Confined s.table path.bucket m fun _ _ => True := by
  unfold delete
  refine confined_bound_bind hm fun _ => ?_
  cases hr : path.isRoot with
  | true => exact confined_pure trivial
  | false =>
    obtain ⟨key, hkey⟩ := Path.exists_key?_of_isRoot hr
    simp only [Bool.false_eq_true, if_false]
    refine (confined_now (P := fun _ _ => True) fun _ => trivial).bind fun time m' _ => ?_
    have hitem : (Entry.tombstone path time).item = _ := Entry.item_of_key? hkey
    rw [hitem]
    refine Client.confined_retry (Program.confined_ask ⟨rfl, ?_⟩ fun _ _ _ _ _ _ => trivial)
    rw [Entry.key_itemAt]
    exact Path.isIn_of_key? hkey

theorem confined_forget (hm : isBound m = true) (path : Path) :
    (s.forget path).Confined s.table path.bucket m fun _ _ => True := by
  unfold forget
  refine confined_bound_bind hm fun _ => ?_
  cases hr : path.isRoot with
  | true => exact confined_pure trivial
  | false =>
    obtain ⟨key, hkey⟩ := Path.exists_key?_of_isRoot hr
    simp only [Bool.false_eq_true, if_false]
    rw [Path.key_of_key? hkey]
    exact Client.confined_retry (Program.confined_ask ⟨rfl, Path.isIn_of_key? hkey⟩
      fun _ _ _ _ _ _ => trivial)

theorem confined_deleteSubtree? (hm : isBound m = true) (visits : Nat) (path : Path) :
    (s.deleteSubtree? visits path).Confined s.table path.bucket m fun _ _ => True := by
  unfold deleteSubtree?
  refine confined_bound_bind hm fun _ => (confined_get hm path false).bind ?_
  rintro e _ ⟨rfl, he⟩
  split
  · exact confined_pure trivial
  · rename_i root hroot
    have hpath : root.path = path := he root (Option.filter_eq_some_iff.1 hroot).1
    have hstart : ∀ d ∈ (Walk.start root).queue, d.path.bucket = path.bucket := by
      intro d hd
      rw [List.mem_singleton.1 hd, hpath]
    refine (Walk.confined_collect? hm visits (Walk.start root) hstart).bind ?_
    rintro found _ ⟨rfl, hfound⟩
    cases found with
    | none => exact confined_pure trivial
    | some subtree =>
      refine (confined_now (P := fun _ _ => True) fun _ => trivial).bind fun time m' _ => ?_
      refine (confined_writeEntries ?_).discard
      intro d hd
      obtain ⟨e, he, rfl⟩ := List.mem_map.1 hd
      exact hfound subtree rfl e (List.mem_reverse.1 (List.mem_filter.1 he).1)

theorem confined_move (hm : isBound m = true) {deletes : Option (List Path)}
    {creates : Option (List Entry)} (hdeletes : ∀ paths ∈ deletes, ∀ p ∈ paths, p.bucket = b)
    (hcreates : ∀ es ∈ creates, ∀ e ∈ es, e.path.bucket = b) :
    (s.move deletes creates).Confined s.table b m fun _ _ => True := by
  have hcreated : ∀ d ∈ (creates.elim [] fun es => Entry.withAncestors es s.owner),
      d.path.bucket = b := by
    intro d hd
    cases creates with
    | none => cases hd
    | some es => exact Entry.bucket_of_mem_withAncestors (hcreates es rfl) hd
  have hwrite {deleted : List Entry} (hdeleted : ∀ d ∈ deleted, d.path.bucket = b) (m' : Memory) :
      (s.writeEntries [] (Entry.keepLast
        ((creates.elim [] fun es => Entry.withAncestors es s.owner) ++ deleted)) >>= fun _ =>
          pure ()).Confined s.table b m' fun _ _ => True := by
    refine (confined_writeEntries ?_).discard
    intro d hd
    rcases List.mem_append.1 (Entry.mem_of_mem_keepLast hd) with hd | hd
    · exact hcreated d hd
    · exact hdeleted d hd
  unfold move
  split
  · exact confined_pure trivial
  · refine confined_bound_bind hm fun _ => ?_
    cases deletes with
    | none => exact hwrite (fun _ hd => absurd hd List.not_mem_nil) m
    | some paths =>
      refine (confined_now (P := fun _ _ => True) fun _ => trivial).bind fun time m' _ => ?_
      refine hwrite ?_ m'
      intro d hd
      obtain ⟨p, hp, rfl⟩ := List.mem_map.1 hd
      exact hdeletes paths rfl p (List.mem_filter.1 hp).1

end Store

/-- Whether a use of a store is for paths of a bucket. Binding, pruning and destroying the table are
for no bucket. -/
def Use.IsIn (b : Bucket) : Use → Prop
  | .get path _ | .listChildren path | .delete path | .forget path | .deleteSubtree path =>
    path.bucket = b
  | .put e => e.path.bucket = b
  | .putAll es => ∀ e ∈ es, e.path.bucket = b
  | .putListing l => l.path.bucket = b ∧ ∀ e ∈ l.entries, e.path.bucket = b
  | .move deletes creates => (∀ paths ∈ deletes, ∀ p ∈ paths, p.bucket = b) ∧
    ∀ es ∈ creates, ∀ e ∈ es, e.path.bucket = b
  | .prepare | .prune _ | .destroy => False

/-- A bound store that is used for paths of a bucket is confined to it. -/
theorem Use.confined_perform {s : Store} (hm : Store.isBound m = true) (visits : Nat) {u : Use}
    (hu : u.IsIn b) : (u.perform s visits).Confined s.table b m fun _ _ => True := by
  cases u with
  | get path hint =>
    obtain rfl : path.bucket = b := hu
    exact (s.confined_get hm path hint).imp fun _ _ _ => trivial
  | listChildren path =>
    obtain rfl : path.bucket = b := hu
    exact (s.confined_listChildren hm path).imp fun _ _ _ => trivial
  | put e =>
    obtain rfl : e.path.bucket = b := hu
    exact s.confined_put hm e
  | putAll es => exact s.confined_putAll hm hu
  | putListing l =>
    obtain ⟨rfl, hl⟩ := hu
    exact s.confined_putListing hm hl
  | delete path =>
    obtain rfl : path.bucket = b := hu
    exact s.confined_delete hm path
  | forget path =>
    obtain rfl : path.bucket = b := hu
    exact s.confined_forget hm path
  | deleteSubtree path =>
    obtain rfl : path.bucket = b := hu
    exact s.confined_deleteSubtree? hm visits path
  | move deletes creates => exact s.confined_move hm hu.1 hu.2
  | prepare => exact hu.elim
  | prune before => exact hu.elim
  | destroy => exact hu.elim

end TableTree
