import TableTree.Proofs.Binding
import TableTree.Proofs.Walk.Snapshot
import TableTree.Store.Write

/-!
# Walks of a store

What a store reads is what the items say, and its walks are the walks through the items.

Results:

* `Store.always_get`, `Store.always_listChildren`: reading an entry and a listing.
* `Walk.collect?_cons`: a walk visits the front of its queue and goes on.
* `Walk.always_collect?`: a walk of a store visits what a walk through the items visits.
-/

namespace TableTree

open Operation

variable {s : Store} {time : Int64} {m : Memory} {items : Items}

/-- The entry of a path; a root is always a directory. -/
def Items.lookup? (items : Items) (owner : String) (p : Path) : Option Entry :=
  if p.isRoot then some (.directory p owner) else (items.at? p).bind (Entry.ofItem? · owner)

namespace Store

theorem always_readEntry {path : Path} {key : Key} (hkey : path.key? = some key) :
    (s.readEntry path key false).Always (tableWorld s.table time) (some items) fun r st =>
      EndsIn (fun e st => st = some items ∧ e = (items.at? path).bind (Entry.ofItem? · s.owner))
        (· = some items) r st := by
  unfold readEntry
  rw [Program.always_bind]
  refine (Client.always_ask_reads (r := .getItem s.table key) rfl fun _ _ h => h).imp ?_
  intro answer st h
  cases answer with
  | error e => exact h
  | ok found =>
    obtain ⟨rfl, _, ⟨⟩, rfl⟩ := h
    dsimp only
    rw [Items.at?_of_key? items hkey]
    split
    · rename_i hnone
      exact ⟨rfl, hnone.symm⟩
    · rename_i entry hentry
      exact ⟨rfl, hentry.symm⟩

/-- Reading an entry gives what the items say and leaves them alone. -/
theorem always_get (path : Path) :
    (s.get path false).Always (tableWorld s.table time) m (some items) fun r _ st =>
      EndsIn (fun e st => st = some items ∧ e = items.lookup? s.owner path) (· = some items)
        r st := by
  unfold get Items.lookup?
  refine always_bound_bind rfl ?_
  intro _ m'
  cases hr : path.isRoot with
  | true => exact ⟨rfl, rfl⟩
  | false =>
    obtain ⟨key, hkey⟩ := Path.exists_key?_of_isRoot hr
    simp only [Bool.false_eq_true, if_false]
    rw [Path.key_of_key? hkey, always_ofPath_ok]
    exact Client.always_once (always_readEntry hkey)

/-- A listing has the live children that the items have; without children there may be none. -/
theorem always_listChildren (path : Path) :
    (s.listChildren path).Always (tableWorld s.table time) m (some items) fun r _ st =>
      EndsIn (fun l st => st = some items ∧
        (l.elim [] fun l => l.entries.filter Entry.isLive) = items.children s.owner path)
          (· = some items) r st := by
  unfold listChildren
  refine always_bound_bind rfl ?_
  intro _ m'
  refine (Client.always_once (Client.always_ask_reads
    (r := .query s.table path.partition none) rfl fun _ _ h => h)).andThen ?_
  rintro found m'' _ ⟨rfl, _, ⟨⟩, rfl⟩
  rw [Items.select_none]
  dsimp only
  split
  · rename_i hempty
    refine (always_get path).andThen ?_
    rintro e m''' _ ⟨rfl, -⟩
    refine ⟨rfl, ?_⟩
    unfold Items.children
    cases e with
    | none => rw [List.isEmpty_iff.1 hempty]; rfl
    | some e => rfl
  · exact ⟨rfl, rfl⟩

end Store

namespace Walk

theorem collect?_nil (s : Store) (visits : Nat) : collect? s visits ⟨[]⟩ = pure (some []) := by
  cases visits <;> rfl

/-- A walk goes on with the live children of the entry that is visited. -/
theorem collect?_cons (s : Store) (visits : Nat) (e : Entry) (queue : List Entry) :
    collect? s (visits + 1) ⟨e :: queue⟩ =
      (if e.isDir then s.listChildren e.path else pure none) >>= fun listing =>
        collect? s visits ⟨queue ++ listing.elim [] fun l => l.entries.filter Entry.isLive⟩ >>=
          fun rest => pure (rest.map (e :: ·)) := by
  have hvisited (w : Walk) :
      (ofResult (.ok (some e)) >>= fun visited => visited.elim (pure (some [])) fun entry =>
        collect? s visits w >>= fun rest => pure (rest.map (entry :: ·))) =
      collect? s visits w >>= fun rest => pure (rest.map (e :: ·)) := rfl
  rw [collect?]
  unfold next
  apply ExceptT.ext
  dsimp only
  split
  · simp only [ExceptT.run_bind, ExceptT.run_lift, bind_map_left, bind_assoc]
    refine congrArg _ (funext fun listing => ?_)
    rcases listing with _ | _ | listing
    · rfl
    · simp only [pure_bind, Option.elim_none, List.append_nil]
      exact congrArg ExceptT.run (hvisited _)
    · simp only [pure_bind, Option.elim_some]
      exact congrArg ExceptT.run (hvisited _)
  · simp only [ExceptT.run_bind, ExceptT.run_lift, bind_map_left, pure_bind, Option.elim_none,
      List.append_nil]
    exact congrArg ExceptT.run (hvisited _)

/-- The listing of the entry that is visited has what the entry expands to. -/
theorem always_listing (e : Entry) :
    (if e.isDir then s.listChildren e.path else pure none).Always (tableWorld s.table time) m
      (some items) fun r _ st =>
        EndsIn (fun l st => st = some items ∧
          (l.elim [] fun l => l.entries.filter Entry.isLive) = items.expand s.owner e)
            (· = some items) r st := by
  cases hdir : e.isDir with
  | true =>
    have hexpand : items.expand s.owner e = items.children s.owner e.path := if_pos hdir
    rw [hexpand]
    exact s.always_listChildren e.path
  | false => exact ⟨rfl, (if_neg (by simp [hdir])).symm⟩

/-- A walk of a store visits what a walk through the items visits, and leaves them alone. -/
theorem always_collect? (visits : Nat) (w : Walk) (m : Memory) :
    (w.collect? s visits).Always (tableWorld s.table time) m (some items) fun r _ st =>
      EndsIn (fun es st => st = some items ∧ es = items.walk s.owner visits w.queue)
        (· = some items) r st := by
  induction visits generalizing w m with
  | zero =>
    obtain ⟨_ | ⟨e, queue⟩⟩ := w
    · exact ⟨rfl, rfl⟩
    · exact ⟨rfl, rfl⟩
  | succ visits ih =>
    obtain ⟨_ | ⟨e, queue⟩⟩ := w
    · exact ⟨rfl, rfl⟩
    · rw [collect?_cons]
      refine (always_listing e).andThen ?_
      rintro l m' _ ⟨rfl, hl⟩
      rw [hl]
      refine (ih ⟨queue ++ items.expand s.owner e⟩ m').andThen ?_
      rintro es m'' _ ⟨rfl, rfl⟩
      exact ⟨rfl, rfl⟩

end Walk

end TableTree
