import Acromegaly.Found.Machine

/-!
# Machines in step

Ways in which one machine goes as another that say more than a forward simulation does: of the first
two, that an event which cannot occur in the one cannot occur in the other; of the third, that the
events to be seen of the two are the same.

* `Bisimulation`: both machines take the same events, in related states; `Bisimulation.map_run` says
  that what can be observed of the two is the same after every list of events, or that the list can
  be run in neither.
* `Projection`: one machine is a part of the other. Each event of the whole is an event of the part
  or does not concern it, and the part of a run is the run of the part
  (`Projection.map_run`).
* `Refinement`: each step of the one machine is a run of the other, with the same events to be seen.
-/

namespace Acromegaly.Found.Machine

variable {S A E F : Type*}

/-! ## Bisimulations -/

/-- Related states have related successors under every event, or none. -/
structure Bisimulation (M : Machine S E) (N : Machine A E) where
  rel : S → A → Prop
  step : ∀ s a e, rel s a → Option.Rel rel (M.step s e) (N.step a e)

variable {M : Machine S E} {N : Machine A E}

/-- So it is with every list of events. -/
theorem Bisimulation.run (σ : Bisimulation M N) {s : S} {a : A} (h : σ.rel s a) (es : List E) :
    Option.Rel σ.rel (M.run s es) (N.run a es) := by
  induction es generalizing s a with
  | nil => exact .some h
  | cons e es ih =>
      have hstep := σ.step s a e h
      rw [run_cons, run_cons]
      generalize M.step s e = x, N.step a e = y at hstep
      cases hstep with
      | none => exact .none
      | some h' => exact ih h'

/-- What the relation preserves is observed of both machines alike. -/
theorem Bisimulation.map_run {β : Type*} (σ : Bisimulation M N) {f : S → β} {g : A → β}
    (hobs : ∀ s a, σ.rel s a → f s = g a) {s : S} {a : A} (h : σ.rel s a) (es : List E) :
    (M.run s es).map f = (N.run a es).map g := by
  have hrel := σ.run h es
  generalize M.run s es = x, N.run a es = y at hrel
  cases hrel with
  | none => rfl
  | some h' => exact congrArg some (hobs _ _ h')

/-- A run of the one machine is matched by a run of the other. -/
theorem Bisimulation.run_eq_some (σ : Bisimulation M N) {s s' : S} {a : A} (h : σ.rel s a)
    {es : List E} (hrun : M.run s es = some s') : ∃ a', N.run a es = some a' ∧ σ.rel s' a' := by
  have hrel := σ.run h es
  rw [hrun] at hrel
  generalize N.run a es = y at hrel
  cases hrel with
  | some h' => exact ⟨_, rfl, h'⟩

/-! ## Parts -/

/-- `N` is a part of `M`, as long as the invariant of `M` holds. -/
structure Projection (M : Machine S E) (N : Machine A F) where
  /-- What the projection depends on. -/
  inv : S → Prop
  state : S → A
  /-- The event of the part, if the event of the whole concerns it. -/
  event : E → Option F
  preserved : ∀ s e s', inv s → M.step s e = some s' → inv s'
  step : ∀ s e, inv s →
    (M.step s e).map state = ((event e).elim (some (state s)) (N.step (state s)))

/-- The first event of a run is one that is read as an event of the machine, or it is passed over. -/
theorem run_filterMap_cons (N : Machine A F) (f : E → Option F) (a : A) (e : E) (es : List E) :
    N.run a ((e :: es).filterMap f) =
      ((f e).elim (some a) (N.step a)).bind fun a' => N.run a' (es.filterMap f) := by
  cases he : f e with
  | none =>
      rw [List.filterMap_cons_none he]
      rfl
  | some x =>
      rw [List.filterMap_cons_some he, run_cons]
      rfl

/-- The part of a run is the run of the part, on the events that concern it. -/
theorem Projection.map_run {M : Machine S E} {N : Machine A F} (π : Projection M N) {s : S}
    (h : π.inv s) (es : List E) :
    (M.run s es).map π.state = N.run (π.state s) (es.filterMap π.event) := by
  induction es generalizing s with
  | nil => rfl
  | cons e es ih =>
      rw [run_cons, run_filterMap_cons, ← π.step s e h]
      cases hs : M.step s e with
      | none => rfl
      | some s' => exact ih (π.preserved s e s' h hs)

/-- Two ways to read the events make no difference if each event has the same effect in both. -/
theorem run_filterMap_congr {N : Machine A F} {f g : E → Option F} {es : List E}
    (h : ∀ e ∈ es, ∀ a, (f e).elim (some a) (N.step a) = (g e).elim (some a) (N.step a)) (a : A) :
    N.run a (es.filterMap f) = N.run a (es.filterMap g) := by
  induction es generalizing a with
  | nil => rfl
  | cons e es ih =>
      rw [run_filterMap_cons, run_filterMap_cons, h e List.mem_cons_self]
      congr 1
      funext a'
      exact ih (fun e' he' => h e' (List.mem_cons_of_mem e he')) a'

/-! ## Refinements -/

/-- Steps of `M` are matched by runs of `N` with the same visible events. -/
structure Refinement (M : Machine S E) (N : Machine A F) {V : Type*} (visM : E → Option V)
    (visN : F → Option V) where
  rel : S → A → Prop
  step : ∀ s e s' a, rel s a → M.step s e = some s' →
    ∃ fs a', N.run a fs = some a' ∧ fs.filterMap visN = [e].filterMap visM ∧ rel s' a'

/-- So are runs. -/
theorem Refinement.run {M : Machine S E} {N : Machine A F} {V : Type*} {visM : E → Option V}
    {visN : F → Option V} (ρ : Refinement M N visM visN) {s s' : S} {a : A} (h : ρ.rel s a)
    {es : List E} (hrun : M.run s es = some s') :
    ∃ fs a', N.run a fs = some a' ∧ fs.filterMap visN = es.filterMap visM ∧ ρ.rel s' a' := by
  induction es generalizing s a with
  | nil =>
      cases hrun
      exact ⟨[], a, rfl, rfl, h⟩
  | cons e es ih =>
      obtain ⟨s₁, hstep, hrest⟩ := run_cons_eq_some.mp hrun
      obtain ⟨fs, a₁, hfs, hvis, hrel⟩ := ρ.step s e s₁ a h hstep
      obtain ⟨fs', a', hfs', hvis', hrel'⟩ := ih hrel hrest
      refine ⟨fs ++ fs', a', run_append_eq_some.mpr ⟨a₁, hfs, hfs'⟩, ?_, hrel'⟩
      rw [List.filterMap_append, hvis, hvis', ← List.filterMap_append, List.singleton_append]

/-- A refinement of a refinement. -/
def Refinement.comp {B G : Type*} {M : Machine S E} {N : Machine A F} {L : Machine B G} {V : Type*}
    {visM : E → Option V} {visN : F → Option V} {visL : G → Option V}
    (ρ : Refinement M N visM visN) (σ : Refinement N L visN visL) : Refinement M L visM visL where
  rel s b := ∃ a, ρ.rel s a ∧ σ.rel a b
  step := by
    rintro s e s' b ⟨a, hsa, hab⟩ hstep
    obtain ⟨fs, a', hfs, hvis, hsa'⟩ := ρ.step s e s' a hsa hstep
    obtain ⟨gs, b', hgs, hvis', hab'⟩ := σ.run hab hfs
    exact ⟨gs, b', hgs, hvis'.trans hvis, a', hsa', hab'⟩

end Acromegaly.Found.Machine
