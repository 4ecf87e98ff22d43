import TableTree.Proofs.AncestorsLive
import TableTree.Proofs.Interleaving.Discipline

/-!
# Creation by several stores

A store that creates looks for the nearest live ancestor, and writes later, when others have written
in between. All that it needs is that nobody takes away what it has seen: live paths stay live while
all stores create, and whatever one of them is about to write still comes after its ancestors.

Results:

* `growth`: live paths stay live, and have live ancestors if they had.
* `Items.Admits`: entries that can be stored, up to any place, with growth.
* `Store.always_withMissingAncestors_amid`: what a store finds when it looks, amid others.
* `creation`: the discipline of calls that create and delete nothing.
* `Crew.upClosed_steps`: live ancestors after every step of several stores that create.
-/

namespace TableTree

open Operation

variable {α : Type} {t : String} {owner : String} {items items' : Items}
  {x : Option Items × Prop}

namespace Items

/-- Live paths stay live, and have live ancestors if they had. -/
structure Grows (items items' : Items) : Prop where
  isLive : ∀ p, items.IsLive p → items'.IsLive p
  upClosed : UpClosed items.IsLive → UpClosed items'.IsLive

/-- Live entries that can be stored, up to any place, without leaving a live path without its
ancestors. -/
structure Admits (items : Items) (es : List Entry) : Prop where
  upClosed : UpClosed items.IsLive
  isLive : ∀ e ∈ es, e.isLive = true
  isRoot : ∀ e ∈ es, e.path.isRoot = false
  first : AncestorsFirst items.IsLive es

/-- What can be stored can be stored after growth. -/
theorem Admits.of_grows {es : List Entry} (h : items.Admits es) (hgrows : items.Grows items') :
    items'.Admits es where
  upClosed := hgrows.upClosed h.upClosed
  isLive := h.isLive
  isRoot := h.isRoot
  first := h.first.mono fun _ _ _ q _ => hgrows.isLive q

/-- When some of the entries are stored, from the front, the others can be stored. -/
theorem Admits.storeAll_take {es : List Entry} (h : items.Admits es) (k : Nat) :
    items.Grows (items.storeAll (es.take k)) ∧ (items.storeAll (es.take k)).Admits (es.drop k) := by
  have hfit : ∀ e ∈ es.take k, e.isLive = true ∧ e.path.isRoot = false := fun e he =>
    ⟨h.isLive e (List.mem_of_mem_take he), h.isRoot e (List.mem_of_mem_take he)⟩
  have hup : UpClosed (items.storeAll (es.take k)).IsLive :=
    upClosed_storeAll h.upClosed hfit (h.first.take k)
  refine ⟨⟨fun p hp => (isLive_storeAll hfit).2 (.inl hp), fun _ => hup⟩, hup, ?_, ?_, ?_⟩
  · exact fun e he => h.isLive e (List.mem_of_mem_drop he)
  · exact fun e he => h.isRoot e (List.mem_of_mem_drop he)
  · rw [isLive_storeAll_eq fun e he => (hfit e he).2]
    exact h.first.drop k

end Items

/-- How the items change while stores create. -/
def growth : Drift where
  Leads := Items.Grows
  refl _ := ⟨fun _ => id, id⟩
  trans h h' := ⟨fun p hp => h'.isLive p (h.isLive p hp), fun hup => h'.upClosed (h.upClosed hup)⟩

/-- As far as a store knows, every live path has live ancestors. -/
abbrev Sound (x : Option Items × Prop) : Prop := Kept (fun items => UpClosed items.IsLive) x

theorem growth_stable_upClosed : growth.Stable fun items => UpClosed items.IsLive :=
  fun _ _ h => h.upClosed

/-- Entries that can be stored are stored from the front, with growth. -/
theorem growth_stores : growth.Stores fun es items => items.Admits es where
  isRoot h := h.isRoot
  stable _ _ _ hgrows h := h.of_grows hgrows
  store h := h.storeAll_take

/-! ## Looking for missing ancestors -/

namespace Entry

/-- A store finds stand-ins for the ancestors that are not live, whatever others create meanwhile. -/
theorem always_standInsUntilLive_amid (keys : List (Path × Key))
    (hkeys : ∀ x ∈ keys, x.1.key? = some x.2)
    (habove : (keys.map Prod.fst).Pairwise fun q r => r ∈ q.ancestors) (hx : Sound x) :
    (standInsUntilLive t owner keys).Always (amid t growth) x fun r x' =>
      EndsIn (fun above => Kept fun items => UpClosed items.IsLive ∧
        ∃ qs, above = qs.map (standIn · owner) ∧ KnownBeyond items.IsLive (keys.map Prod.fst) qs)
          Sound r x' := by
  induction keys generalizing x with
  | nil => exact hx.imp fun _ hup => ⟨hup, [], rfl, [], rfl, by simp⟩
  | cons y keys ih =>
    obtain ⟨path, key⟩ := y
    have hkey : path.key? = some key := hkeys _ List.mem_cons_self
    obtain ⟨hfirst, hrest⟩ := List.pairwise_cons.1 habove
    rw [standInsUntilLive, Program.always_bind]
    refine (Program.always_ask_amid growth_stable_upClosed (r := .getItem t key) rfl
      (fun _ _ _ h => h) hx).imp ?_
    intro answer x' h
    cases answer with
    | error e => exact h
    | ok found =>
      dsimp only
      split
      · rename_i hl
        refine Kept.imp h ?_
        rintro items ⟨hup, rfl⟩
        have hpath : items.IsLive path := by
          rw [Items.isLive_iff_any, Items.at?_of_key? items hkey]
          exact hl
        refine ⟨hup, [], rfl, _, rfl, ?_⟩
        exact List.forall_mem_cons.2 ⟨hpath, fun q hq => hup path hpath q (hfirst q hq)⟩
      · rw [Program.always_bind]
        refine (ih (fun y hy => hkeys y (List.mem_cons_of_mem _ hy)) hrest
          (h.imp fun _ => And.left)).imp ?_
        intro r x'' hr
        cases r with
        | error e => exact hr
        | ok above =>
          refine Kept.imp hr ?_
          rintro items ⟨hup, qs, rfl, rest, heq, hlive⟩
          exact ⟨hup, path :: qs, rfl, rest, by rw [List.map_cons, heq]; rfl, hlive⟩

end Entry

namespace Store

variable {s : Store} {m : Memory}

/-- A store finds the ancestors that are missing, whatever others create meanwhile. -/
theorem always_withMissingAncestors_amid (e : Entry) (hx : Sound x) :
    (s.withMissingAncestors e).Always (amid s.table growth) m x fun r _ x' =>
      EndsIn (fun es => Kept fun items => UpClosed items.IsLive ∧
        ∃ qs, es = e.withStandIns s.owner qs ∧ KnownBeyond items.IsLive e.path.ancestors qs)
          Sound r x' := by
  unfold withMissingAncestors
  obtain ⟨keys, hok, hfst, hkeys⟩ := e.path.ancestorKeys_eq
  have habove : (keys.map Prod.fst).Pairwise fun q r => r ∈ q.ancestors :=
    hfst ▸ e.path.pairwise_ancestors
  rw [hok, always_ofPath_ok]
  refine Client.always_retry ?_ m hx
  intro x hx
  unfold Entry.missingAncestors
  rw [Program.always_bind]
  refine (Entry.always_standInsUntilLive_amid keys hkeys habove hx).imp ?_
  intro r x' hr
  cases r with
  | error e => exact hr
  | ok above =>
    refine Kept.imp hr ?_
    rintro items ⟨hup, qs, rfl, hqs⟩
    exact ⟨hup, qs, rfl, hfst ▸ hqs⟩

/-- Entries that can be stored leave live ancestors, whatever others create meanwhile. -/
theorem always_storeEntries_creation {es : List Entry} (hx : Kept (Items.Admits · es) x) :
    (s.writeEntries [] es).Always (amid s.table growth) m x fun r _ x' =>
      EndsIn (fun _ => Sound) Sound r x' := by
  refine (always_storeEntries_amid growth_stores hx).imp ?_
  intro r m' x' h
  cases r with
  | ok n => exact Kept.imp h fun _ h => h.upClosed
  | error e => exact Kept.imp h fun _ ⟨_, h⟩ => h.upClosed

/-! ## The calls that create -/

/-- After binding, a store that creates goes on from live ancestors. -/
theorem always_bound_bind_creation {f : Binding → Operation α} (hx : Sound x)
    (hf : ∀ binding m' x', Sound x' →
      (f binding).Always (amid s.table growth) m' x' fun r _ x'' =>
        EndsIn (fun _ => Sound) Sound r x'') :
    (s.bound >>= f).Always (amid s.table growth) m x fun r _ x' =>
      EndsIn (fun _ => Sound) Sound r x' :=
  always_bound_bind_amid growth_stable_upClosed hx (fun _ => id) hf

theorem always_put_amid {e : Entry} (he : e.isLive = true) (hx : Sound x) :
    (s.put e).Always (amid s.table growth) m x fun r _ x' =>
      EndsIn (fun _ => Sound) Sound r x' := by
  unfold put
  refine always_bound_bind_creation hx ?_
  intro _ m' x' hx'
  refine (always_withMissingAncestors_amid e hx').andThen ?_
  intro es m'' x'' h
  refine (always_storeEntries_creation (Kept.imp h ?_)).discard
  rintro items ⟨hup, qs, rfl, hqs⟩
  exact ⟨hup, fun _ => Entry.isLive_of_mem_withStandIns he,
    fun _ => Entry.isRoot_of_mem_withStandIns hqs, Entry.ancestorsFirst_withStandIns hqs⟩

theorem always_putAll_amid {es : List Entry} (hes : ∀ e ∈ es, e.isLive = true) (hx : Sound x) :
    (s.putAll es).Always (amid s.table growth) m x fun r _ x' =>
      EndsIn (fun _ => Sound) Sound r x' := by
  unfold putAll
  refine always_bound_bind_creation hx ?_
  intro _ m' x' hx'
  refine (always_storeEntries_creation (hx'.imp fun items hup => ?_)).discard
  exact ⟨hup, fun _ => Entry.isLive_of_mem_withAncestors hes,
    fun _ hd => (Entry.of_mem_withAncestors hd).1, Entry.ancestorsFirst_withAncestors hes⟩

theorem always_putListing_amid {l : Listing} (hl : l.Fits) (hx : Sound x) :
    (s.putListing l).Always (amid s.table growth) m x fun r _ x' =>
      EndsIn (fun _ => Sound) Sound r x' := by
  unfold putListing
  refine always_bound_bind_creation hx ?_
  intro _ m' x' hx'
  refine (always_withMissingAncestors_amid (l.directory s.owner) hx').andThen ?_
  intro above m'' x'' h
  refine (always_storeEntries_creation (Kept.imp h ?_)).discard
  rintro items ⟨hup, qs, rfl, hqs⟩
  exact ⟨hup, fun _ hd => hl.isLive_of_mem_stored (Entry.mem_of_mem_keepLast hd),
    fun _ hd => Listing.isRoot_of_mem_stored hqs (Entry.mem_of_mem_keepLast hd),
    ancestorsFirst_keepLast (hl.ancestorsFirst_stored hqs) fun _ => hl.isLive_of_mem_stored⟩

theorem always_move_amid {deletes : Option (List Path)} {creates : Option (List Entry)}
    (hd : deletes.getD [] = []) (hc : ∀ e ∈ creates.getD [], e.isLive = true) (hx : Sound x) :
    (s.move deletes creates).Always (amid s.table growth) m x fun r _ x' =>
      EndsIn (fun _ => Sound) Sound r x' := by
  unfold move
  split
  · exact hx
  rw [Entry.elim_withAncestors]
  refine always_bound_bind_creation hx ?_
  intro _ m' x' hx'
  have hlive : ∀ d ∈ Entry.withAncestors (creates.getD []) s.owner, d.isLive = true :=
    fun _ => Entry.isLive_of_mem_withAncestors hc
  have hstore (m' : Memory) :
      (s.writeEntries [] (Entry.keepLast
        (Entry.withAncestors (creates.getD []) s.owner ++ [])) >>= fun _ => pure ()).Always
          (amid s.table growth) m' x' fun r _ x'' =>
            EndsIn (fun _ => Sound) Sound r x'' := by
    rw [List.append_nil]
    refine (always_storeEntries_creation (hx'.imp fun items hup => ⟨hup, ?_, ?_, ?_⟩)).discard
    · exact fun d hd => hlive d (Entry.mem_of_mem_keepLast hd)
    · exact fun d hd => (Entry.of_mem_withAncestors (Entry.mem_of_mem_keepLast hd)).1
    · exact ancestorsFirst_keepLast (Entry.ancestorsFirst_withAncestors hc) hlive
  cases deletes with
  | none => exact hstore m'
  | some paths =>
    obtain rfl : paths = [] := hd
    dsimp only
    rw [always_bind, always_perform, Program.always_now]
    exact fun _ _ => hstore m'

end Store

/-- Stores that create and delete nothing can live with each other. -/
def creation (t : String) : Discipline t where
  drift := growth
  Allows c := c.Creates ∧ c.deletes = []
  Inv items := UpClosed items.IsLive
  Done _ _ _ := True
  stable_inv := growth_stable_upClosed
  stable_done _ _ _ _ _ _ := trivial
  perform := by
    rintro s rfl c ⟨hc, hd⟩ m visits items hup -
    have hx : Sound (some items, True) := ⟨trivial, items, rfl, hup⟩
    have hends {r : Except StoreError Unit} {x : Option Items × Prop}
        (h : EndsIn (fun _ => Sound) Sound r x) :
        Kept (fun items => UpClosed items.IsLive ∧ True) x := by
      cases r <;> exact Kept.imp h fun _ hup => ⟨hup, trivial⟩
    cases c with
    | put e => exact (s.always_put_amid hc hx).imp fun _ _ _ => hends
    | putAll es => exact (s.always_putAll_amid hc hx).imp fun _ _ _ => hends
    | putListing l => exact (s.always_putListing_amid hc hx).imp fun _ _ _ => hends
    | move deletes creates => exact (s.always_move_amid hd hc hx).imp fun _ _ _ => hends
    | delete path => exact hc.elim
    | forget path => exact hc.elim
    | deleteSubtree path => exact hc.elim
    | prune before => exact hc.elim

/-- **Concurrent creators.** Let every live path of a table have live ancestors, and let any number
of stores make calls at the table that create and delete nothing. After every step of theirs, in
whatever order they take them and whatever goes wrong with each, every live path has live
ancestors. -/
theorem Crew.upClosed_steps {crew crew' : Crew} {t : String} {items : Items}
    (hbegins : crew.Begins t) (hitems : crew.service.items? t = some items)
    (hup : ∀ p, items.IsLive p → ∀ q ∈ p.ancestors, items.IsLive q)
    (hcreates : ∀ w ∈ crew.workers, ∀ c ∈ w.later, c.Creates)
    (hdeletes : ∀ w ∈ crew.workers, ∀ c ∈ w.later, c.deletes = [])
    (hsteps : crew.Steps crew') :
    ∃ items', crew'.service.items? t = some items' ∧
      ∀ p, items'.IsLive p → ∀ q ∈ p.ancestors, items'.IsLive q := by
  obtain ⟨items', hitems', hup', -⟩ := (creation t).holds_steps hbegins hitems hup
    (fun w hw c hc => ⟨hcreates w hw c hc, hdeletes w hw c hc⟩) hsteps
  exact ⟨items', hitems', hup'⟩

namespace Sample

/-- Two stores that are about to create files in a directory that is missing. -/
def creators : Crew where
  service := stage.host.state
  workers := [
    { store := store, memory := stage.memory, later := [.put (.file file 1 2 3 "o")] },
    { store := store, memory := stage.memory,
      later := [.putAll [.file (directory.below ⟨"g", by decide⟩) 1 2 3 "o"]] }]

/-- The first store looks for the directory. Then both send a batch of two writes, of which one is
left out each, and only the second store sends it again. -/
def creatorTurns : List Turn :=
  [⟨0, 0⟩, ⟨0, 0⟩, ⟨1, 0⟩, ⟨1, 1⟩, ⟨0, 1⟩, ⟨1, 0⟩, ⟨1, 0⟩, ⟨1, 0⟩]

/-- The second store has returned, while the first is still at work. -/
theorem upClosed_steps_creators :
    ∃ items items', creators.Begins store.table ∧
    creators.service.items? store.table = some items ∧
    (∀ p, items.IsLive p → ∀ q ∈ p.ancestors, items.IsLive q) ∧
    (∀ w ∈ creators.workers, ∀ c ∈ w.later, c.Creates) ∧
    (∀ w ∈ creators.workers, ∀ c ∈ w.later, c.deletes = []) ∧
    creators.Steps (creators.turns creatorTurns) ∧
    (creators.turns creatorTurns).workers.map (fun w => w.current.isSome) = [true, false] ∧
    (creators.turns creatorTurns).service.items? store.table = some items' ∧
    ∀ p, items'.IsLive p → ∀ q ∈ p.ancestors, items'.IsLive q := by
  obtain ⟨createdAt, hitems⟩ := isMade_stage.items?_eq
  have hup : UpClosed (Settings.madeItems createdAt).IsLive :=
    fun p hp => absurd hp (Items.not_isLive_madeItems createdAt p)
  have hbegins : creators.Begins store.table :=
    ⟨by simp [creators], by simp [creators], by simp [creators]⟩
  have hcreates : ∀ w ∈ creators.workers, ∀ c ∈ w.later, c.Creates := by
    simp [creators, Call.Creates, Entry.isLive, Entry.file]
  have hdeletes : ∀ w ∈ creators.workers, ∀ c ∈ w.later, c.deletes = [] := by
    simp [creators, Call.deletes]
  have hsteps := creators.steps_turns creatorTurns
  obtain ⟨items', hitems', h⟩ :=
    Crew.upClosed_steps hbegins hitems hup hcreates hdeletes hsteps
  exact ⟨_, items', hbegins, hitems, hup, hcreates, hdeletes, hsteps, by decide +kernel, hitems', h⟩

end Sample

end TableTree
