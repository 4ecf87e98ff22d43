import TableTree.Proofs.Interleaving.Amid

/-!
# What all stores keep to

Stores that use one table at the same time keep to a discipline: they make calls of a certain kind
only, and each of these, whatever the others do to the items in between, changes the items in a way
that the others can live with. Then it does so in every interleaving.

Results:

* `Discipline`: calls that can live with each other.
* `Discipline.Keeps`: what is known of a worker while it keeps to a discipline.
* `Discipline.keeps_step`: a step of a worker changes the items as the discipline says.
* `Discipline.holds_steps`: what holds of the items after any steps of a crew.
-/

namespace TableTree

open Operation

variable {α : Type} {t : String}

/-- Calls that stores may make at the table `t` at the same time. -/
structure Discipline (t : String) where
  /-- how the items may change -/
  drift : Drift
  Allows : Call → Prop
  Inv : Items → Prop
  /-- what a call that has returned leaves, whatever comes after it -/
  Done : Call → Except StoreError Unit → Items → Prop
  stable_inv : drift.Stable Inv
  stable_done : ∀ c r, drift.Stable (Done c r)
  /-- Amid others that change the items as they may, a call changes them so as well. -/
  perform : ∀ {s : Store}, s.table = t → ∀ {c : Call}, Allows c → ∀ {m : Memory} {visits : Nat}
    {items : Items}, Inv items → items.size + 2 ≤ visits →
      (c.perform s visits).Always (amid t drift) m (some items, True) fun r _ =>
        Kept fun items => Inv items ∧ Done c r items

/-! ## Between the steps of a worker -/

section Amid

variable {d : Drift} {items items' : Items}

/-- What is known of a program stays known while others change the items. -/
theorem Program.Always.of_leads {p : Program α} {Q : α → Option Items × Prop → Prop}
    (h : p.Always (amid t d) (some items, True) Q) (hleads : d.Leads items items')
    (hQ : ∀ a, Q a (some items, True) → Q a (some items', True)) :
    p.Always (amid t d) (some items', True) Q := by
  induction p with
  | done a => exact hQ a h
  | send r next ih =>
    rintro answer x ⟨st, hst, hanswer⟩
    refine h answer x ⟨st, ?_, hanswer⟩
    obtain ⟨items'', rfl, hleads'⟩ := hst items' rfl
    exact Drift.follows_some.2 (d.trans hleads hleads')
  | wait duration next ih => exact fun ending => ih ending (h ending)
  | clock next ih => exact fun now hnow => ih now (h now hnow)
  | tell n next ih => exact ih h

/-- A step of a program at the service is one of those that it may take amid others, and it changes
the items as it should. -/
theorem Program.Step.leads {p p' : Program α} {s s' : Service}
    {Q : α → Option Items × Prop → Prop} (hstep : p.Step Service.world s p' s')
    (hitems : s.items? t = some items) (h : p.Always (amid t d) (some items, True) Q)
    (hQ : ∀ a x, Q a x → x.2) :
    ∃ items', s'.items? t = some items' ∧ d.Leads items items' ∧
      p'.Always (amid t d) (some items', True) Q := by
  cases hstep with
  | @send r next _ _ answer hanswer =>
    obtain ⟨plan, hcalm, heq⟩ := hanswer
    have hitems' : ({ s with plan := plan } : Service).items? t = some items := hitems
    have hfits : (tableWorld t 0).answers r (some items) answer (s'.items? t) := by
      have := (Service.fits_answer (t := t) (s := { s with plan := plan }) hcalm r).1
      rwa [heq, hitems'] at this
    have hnext := h answer (s'.items? t, True ∧ d.Follows (some items) (s'.items? t))
      ⟨some items, d.follows_refl _, hfits, rfl⟩
    -- the step has changed the items as it should, since it must turn out so in the end
    have hfollows : d.Follows (some items) (s'.items? t) := (hnext.imp fun a x => hQ a x).flag.2
    obtain ⟨items', hitems', hleads⟩ := hfollows items rfl
    rw [true_and, hitems', Drift.follows_some, eq_true hleads] at hnext
    exact ⟨items', hitems', hleads, hnext⟩
  | wait ending => exact ⟨items, hitems, d.refl items, h ending⟩
  | clock hnow => exact ⟨items, hitems, d.refl items, h _ trivial⟩
  | tell => exact ⟨items, hitems, d.refl items, h⟩

end Amid

namespace Discipline

variable {D : Discipline t} {items items' : Items}

/-- What a call ends in, once it has returned. -/
def Ends (D : Discipline t) (c : Call) (r : Except StoreError Unit × Memory) :
    Option Items × Prop → Prop :=
  Kept fun items => D.Inv items ∧ D.Done c r.1 items

theorem Ends.of_leads {c : Call} {r : Except StoreError Unit × Memory}
    (h : D.Ends c r (some items, True)) (hleads : D.drift.Leads items items') :
    D.Ends c r (some items', True) := by
  obtain ⟨-, _, ⟨⟩, hinv, hdone⟩ := h
  exact ⟨trivial, items', rfl, D.stable_inv _ _ hleads hinv, D.stable_done _ _ _ _ hleads hdone⟩

/-- A worker keeps to a discipline, where the table has the given items. -/
structure Keeps (D : Discipline t) (w : Worker) (items : Items) : Prop where
  table_eq : w.store.table = t
  /-- whatever it has begun goes on as it should -/
  current : ∀ c p, w.current = some (c, p) →
    p.Always (amid t D.drift) (some items, True) (D.Ends c)
  later : ∀ c ∈ w.later, D.Allows c
  finished : ∀ x ∈ w.finished, D.Done x.1 x.2 items

/-- A worker keeps to it while others take their steps. -/
theorem Keeps.of_leads {w : Worker} (h : D.Keeps w items) (hleads : D.drift.Leads items items') :
    D.Keeps w items' where
  table_eq := h.table_eq
  current c p hp := (h.current c p hp).of_leads hleads fun _ hr => hr.of_leads hleads
  later := h.later
  finished x hx := D.stable_done _ _ _ _ hleads (h.finished x hx)

/-- A step of a worker that keeps to a discipline changes the items as it may, and the worker keeps
to it. -/
theorem keeps_step {w w' : Worker} {s s' : Service} (hstep : w.Step s w' s')
    (hitems : s.items? t = some items) (hinv : D.Inv items) (h : D.Keeps w items) :
    ∃ items', s'.items? t = some items' ∧ D.drift.Leads items items' ∧ D.Keeps w' items' := by
  cases hstep with
  | @start c later visits hcurrent hlater hvisits =>
    rw [h.table_eq, Service.walkBound, hitems] at hvisits
    have hall : ∀ c ∈ w.later, D.Allows c := h.later
    rw [hlater, List.forall_mem_cons] at hall
    refine ⟨items, hitems, D.drift.refl items, h.table_eq, ?_, hall.2, h.finished⟩
    rintro c' p ⟨⟩
    refine D.perform h.table_eq hall.1 hinv ?_
    simp only [Option.elim_some] at hvisits
    omega
  | @go _ c p p' hcurrent hgo =>
    obtain ⟨items', hitems', hleads, hp'⟩ :=
      hgo.leads hitems (h.current c p hcurrent) fun _ _ hr => hr.1
    refine ⟨items', hitems', hleads, h.table_eq, ?_, h.later, (h.of_leads hleads).finished⟩
    rintro c' p'' ⟨⟩
    exact hp'
  | @finish c r m hcurrent =>
    obtain ⟨-, _, ⟨⟩, -, hdone⟩ : D.Ends c (r, m) (some items, True) := h.current _ _ hcurrent
    refine ⟨items, hitems, D.drift.refl items, h.table_eq, by simp, h.later, ?_⟩
    intro x hx
    rcases List.mem_append.1 hx with hx | hx
    · exact h.finished x hx
    · rw [List.mem_singleton.1 hx]
      exact hdone

/-- The crew keeps to a discipline, which holds of the items. -/
structure Governs (D : Discipline t) (crew : Crew) (items : Items) : Prop where
  items?_eq : crew.service.items? t = some items
  inv : D.Inv items
  keeps : ∀ w ∈ crew.workers, D.Keeps w items

theorem governs_step {crew crew' : Crew} (h : D.Governs crew items) (hstep : crew.Step crew') :
    ∃ items', D.Governs crew' items' ∧ D.drift.Leads items items' := by
  obtain ⟨hw, hstep⟩ := hstep
  obtain ⟨items', hitems', hleads, hkeeps⟩ :=
    keeps_step hstep h.items?_eq h.inv (h.keeps _ (List.mem_of_getElem? hw))
  refine ⟨items', ⟨hitems', D.stable_inv _ _ hleads h.inv, fun v hv => ?_⟩, hleads⟩
  rcases List.mem_or_eq_of_mem_set hv with hv | rfl
  · exact (h.keeps v hv).of_leads hleads
  · exact hkeeps

/-- Workers that make calls of a discipline keep to it, in whatever order they take their steps. -/
theorem holds_steps {crew crew' : Crew} (hbegins : crew.Begins t)
    (hitems : crew.service.items? t = some items) (hinv : D.Inv items)
    (hallows : ∀ w ∈ crew.workers, ∀ c ∈ w.later, D.Allows c) (hsteps : crew.Steps crew') :
    ∃ items', crew'.service.items? t = some items' ∧ D.Inv items' ∧
      ∀ w ∈ crew'.workers, ∀ x ∈ w.finished, D.Done x.1 x.2 items' := by
  suffices h : ∃ items', D.Governs crew' items' by
    obtain ⟨items', h⟩ := h
    exact ⟨items', h.items?_eq, h.inv, fun w hw => (h.keeps w hw).finished⟩
  induction hsteps with
  | refl =>
    refine ⟨items, hitems, hinv, fun w hw => ⟨hbegins.table_eq w hw, ?_, hallows w hw, ?_⟩⟩
    · simp [hbegins.current w hw]
    · simp [hbegins.finished w hw]
  | tail _ hstep ih =>
    obtain ⟨items', h⟩ := ih
    obtain ⟨items'', h', -⟩ := governs_step h hstep
    exact ⟨items'', h'⟩

end Discipline

end TableTree
