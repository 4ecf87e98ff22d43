import TableTree.Proofs.Calls

/-!
# Runs of a store

A run is a sequence of calls on one store. Before each call the plan of the service, the clock and
the shutdown are set anew, so whatever goes wrong during a call is part of the step.

Results:

* `Step`, `Stage.after`, `Stage.run`: steps, and what they lead to.
* `Stage.IsMade`: a store that has just made its table.
* `Stage.commits_after`: what a step leaves of the items.
* `Stage.holds_run`: an invariant of the items along a run.
* `Sample.stage`: a store that has just made its table on a new service.
-/

namespace TableTree

open Operation

/-- A call with the time of it and with what goes wrong during it. -/
structure Step where
  call : Call
  /-- the time of the day -/
  now : Int64
  /-- the number of requests to be throttled -/
  throttles : Nat := 0
  /-- the number of requests to fail -/
  faults : Nat := 0
  /-- how many writes are left out at the end of the batch with a given number -/
  leftovers : Std.ExtTreeMap Nat Nat := ∅
  /-- when the shutdown comes -/
  closesAt : Option Nat := none

/-- What a store remembers, and the host it runs on. -/
structure Stage where
  memory : Memory
  host : Host Service

namespace Stage

variable {s : Store} {stage : Stage}

/-- The items of the store's table. -/
def items? (stage : Stage) (s : Store) : Option Items := stage.host.state.items? s.table

/-- The host of a step. -/
def hostOf (stage : Stage) (x : Step) : Host Service :=
  { stage.host with
    state := { stage.host.state with
      plan := { throttles := x.throttles, faults := x.faults, leftovers := x.leftovers } }
    now := x.now
    closesAt := x.closesAt }

/-- The call of a step. A deletion of a subtree takes as many visits as it needs. -/
def perform (s : Store) (stage : Stage) (x : Step) : Operation.Run Service Unit :=
  (x.call.perform s ((stage.hostOf x).state.walkBound s.table)).run Service.backend stage.memory
    (stage.hostOf x)

/-- What a step leads to. -/
def after (s : Store) (stage : Stage) (x : Step) : Stage :=
  ⟨(perform s stage x).memory, (perform s stage x).host⟩

/-- What steps lead to. -/
def run (s : Store) (stage : Stage) (steps : List Step) : Stage := steps.foldl (after s) stage

instance {ε α : Type} [DecidableEq α] (a : α) : (r : Except ε α) → Decidable (r = .ok a)
  | .ok b => decidable_of_iff (b = a) ⟨congrArg _, fun h => by cases h; rfl⟩
  | .error _ => isFalse nofun

instance {ε α : Type} [DecidableEq ε] (e : ε) : (r : Except ε α) → Decidable (r = .error e)
  | .ok _ => isFalse nofun
  | .error e' => decidable_of_iff (e' = e) ⟨congrArg _, fun h => by cases h; rfl⟩

/-- Whether all steps of a run succeed. -/
def Succeeds (s : Store) : Stage → List Step → Prop
  | _, [] => True
  | stage, x :: steps => (perform s stage x).outcome = .ok () ∧ Succeeds s (after s stage x) steps

instance instDecidableSucceeds (s : Store) :
    (stage : Stage) → (steps : List Step) → Decidable (Succeeds s stage steps)
  | _, [] => inferInstanceAs (Decidable True)
  | stage, x :: steps =>
    have := instDecidableSucceeds s (after s stage x) steps
    inferInstanceAs (Decidable ((perform s stage x).outcome = .ok () ∧ _))

/-- A store that has just made its table, on a service where nobody else is going to write. -/
structure IsMade (s : Store) (stage : Stage) : Prop where
  exists_host : ∃ h : Host Service, h.state.IsCalm ∧ h.state.items? s.table = none ∧
    (s.prepare.run Service.backend {} h).outcome = .ok () ∧
    stage = ⟨(s.prepare.run Service.backend {} h).memory, (s.prepare.run Service.backend {} h).host⟩

@[simp] theorem run_nil : run s stage [] = stage := rfl

@[simp] theorem run_cons (x : Step) (steps : List Step) :
    run s stage (x :: steps) = run s (after s stage x) steps := rfl

/-- A table that was just made holds the marker only. -/
theorem IsMade.items?_eq (h : IsMade s stage) :
    ∃ createdAt, stage.items? s = some (Settings.madeItems createdAt) := by
  obtain ⟨h0, hcalm, hmissing, hok, rfl⟩ := h.exists_host
  have hmade : s.prepare.Always (tableWorld s.table h0.now) {} none _ := s.always_prepare_missing
  rw [← hmissing] at hmade
  have hrun := (hmade.run (Service.within_tableWorld s.table h0.now) hcalm rfl).1
  rw [hok] at hrun
  exact hrun

/-- A step does some of the writes of its call, from the front, and all of them if it succeeds. -/
theorem commits_after {items : Items} (h : stage.items? s = some items) (x : Step) :
    Commits items (x.call.writes s.owner items x.now) (perform s stage x).outcome
      ((after s stage x).items? s) := by
  have hitems : (stage.hostOf x).state.items? s.table = some items := h
  have hbound : (stage.hostOf x).state.walkBound s.table = items.size + 2 := by
    rw [Service.walkBound, hitems]
    rfl
  have hcall : (x.call.perform s (items.size + 2)).Always (tableWorld s.table x.now) stage.memory
      (some items) _ := x.call.always_perform stage.memory
  rw [← hbound, ← hitems] at hcall
  have hcalm : (stage.hostOf x).state.IsCalm := rfl
  exact (hcall.run (Service.within_tableWorld s.table x.now) hcalm rfl).1

/-- What holds of the items at first, and stays true whatever part of its writes each call of a run
does, holds after the run. -/
theorem holds_run {I : Items → Prop} {items : Items} {steps : List Step}
    (hitems : stage.items? s = some items) (hI : I items)
    (hstep : ∀ x ∈ steps, ∀ items, I items → ∀ k,
      I (items.applyAll ((x.call.writes s.owner items x.now).take k))) :
    ∃ items', (run s stage steps).items? s = some items' ∧ I items' := by
  induction steps generalizing stage items with
  | nil => exact ⟨items, hitems, hI⟩
  | cons x steps ih =>
    obtain ⟨k, hk⟩ := (commits_after hitems x).exists_take
    exact ih hk (hstep x List.mem_cons_self items hI k) fun y hy =>
      hstep y (List.mem_cons_of_mem x hy)

end Stage

/-! ## A table that was just made -/

namespace Items

/-- No path has an item in a table that was just made. -/
theorem at?_madeItems (createdAt : Int64) (p : Path) :
    (Settings.madeItems createdAt).at? p = none := by
  cases hp : p.key? with
  | none => rw [at?_of_isRoot _ (Path.key?_eq_none_iff.1 hp)]
  | some key =>
    have hne : Marker.key ≠ key := by
      rintro rfl
      cases (Path.path?_of_key? hp).symm.trans Marker.path?_key
    rw [at?_of_key? _ hp, Settings.madeItems, item?_apply]
    exact if_neg hne

theorem not_isLive_madeItems (createdAt : Int64) (p : Path) :
    ¬ (Settings.madeItems createdAt).IsLive p := by
  rw [isLive_iff_any, at?_madeItems]
  simp

end Items

/-! ## A sample -/

namespace Sample

/-- A store that makes its table. -/
def store : Store := ⟨{ tableName := "meta", region := "local", createTable := true }⟩

/-- A new service. -/
def host : Host Service := { state := { region := "local" }, now := 5 }

/-- The store after it has made its table. -/
def stage : Stage :=
  ⟨(store.prepare.run Service.backend {} host).memory,
    (store.prepare.run Service.backend {} host).host⟩

theorem isMade_stage : stage.IsMade store := ⟨host, rfl, rfl, by decide +kernel, rfl⟩

/-- A path directly below a root. -/
def directory : Path := (Path.root ⟨"b", by decide⟩).below ⟨"d", by decide⟩

/-- A path below it. -/
def file : Path := directory.below ⟨"f", by decide⟩

/-- A file at that path is stored, the first request being throttled. -/
def putFile : Step := { call := .put (.file file 1 2 3 "o"), now := 6, throttles := 1 }

/-- The directory is deleted alone. -/
def deleteDirectory : Step := { call := .delete directory, now := 7 }

/-- The directory is deleted with all below it. -/
def deleteSubtree : Step := { call := .deleteSubtree directory, now := 8 }

/-- The directory is deleted with all below it. One write of two is left out, and the shutdown comes
before it is sent again. -/
def interruptedDelete : Step :=
  { deleteSubtree with leftovers := .ofList [(1, 1)], closesAt := some 0 }

/-- A move that deletes the directory and creates nothing. -/
def moveAway : Step := { call := .move (some [directory]) none, now := 7 }

theorem ancestors_file : file.ancestors = [directory] := by
  simp [file, directory]

end Sample

end TableTree
