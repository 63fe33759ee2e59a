import Mathlib.Data.List.Basic

/-!
# Partial machines, their runs and their invariants

A `Machine S E` is a state machine whose step is partial: `step s e` is `none` where the event
`e` cannot occur in `s` (a timer that is not running does not time out). This file names nothing
of the firmware; it collects what every later file uses about runs.

* `run` executes a list of events; `Reachable s` says that some run from a start state ends in
  `s`.
* `Reachable.invariant`, `Reachable.induct`, `run_preserves`: the induction along a run, stated
  once. A property that holds at the start and survives every step holds in every reachable state.
* `Meets G s es`: every event of the run satisfies the condition `G` in the state it meets, for
  results about runs whose inputs are restricted; `run_preserves_of_meets` is its induction.
* `ends_within`: a run whose every step lowers a variant or is the last one ends.
* `Simulation`: a forward simulation into another machine, each step being matched by a (possibly
  empty) run; `Simulation.reachable` transports reachability, and with it every invariant of the
  abstract machine.
-/

namespace Acromegaly.Found

/-- A machine with partial steps. -/
structure Machine (S E : Type*) where
  /-- The states a run starts in. -/
  init : S → Prop
  /-- The successor of a state under an event, `none` where the event cannot occur. -/
  step : S → E → Option S

namespace Machine

variable {S E : Type*} (M : Machine S E)

/-- Execute a list of events, oldest first; `none` as soon as one of them cannot occur. -/
def run : S → List E → Option S
  | s, [] => some s
  | s, e :: es => (M.step s e).bind fun s' => run s' es

/-- `s` ends some run from a start state. -/
def Reachable (s : S) : Prop := ∃ s₀ es, M.init s₀ ∧ M.run s₀ es = some s

variable {M}

@[simp] theorem run_nil (s : S) : M.run s [] = some s := rfl

theorem run_cons (s : S) (e : E) (es : List E) :
    M.run s (e :: es) = (M.step s e).bind fun s' => M.run s' es := rfl

theorem run_cons_eq_some {s t : S} {e : E} {es : List E} :
    M.run s (e :: es) = some t ↔ ∃ s', M.step s e = some s' ∧ M.run s' es = some t := by
  rw [run_cons, Option.bind_eq_some_iff]

@[simp] theorem run_singleton (s : S) (e : E) : M.run s [e] = M.step s e := by
  rw [run_cons]
  cases M.step s e <;> rfl

theorem run_append (s : S) (es fs : List E) :
    M.run s (es ++ fs) = (M.run s es).bind fun s' => M.run s' fs := by
  induction es generalizing s with
  | nil => rfl
  | cons e es ih =>
      rw [List.cons_append, run_cons, run_cons]
      cases M.step s e with
      | none => rfl
      | some s' => exact ih s'

theorem run_append_eq_some {s t : S} {es fs : List E} :
    M.run s (es ++ fs) = some t ↔ ∃ s', M.run s es = some s' ∧ M.run s' fs = some t := by
  rw [run_append, Option.bind_eq_some_iff]

/-- The last event of a run. -/
theorem run_concat_eq_some {s t : S} {es : List E} {e : E} :
    M.run s (es ++ [e]) = some t ↔ ∃ s', M.run s es = some s' ∧ M.step s' e = some t := by
  simp only [run_append_eq_some, run_singleton]

/-! ## Reachability -/

theorem Reachable.init {s : S} (h : M.init s) : M.Reachable s := ⟨s, [], h, rfl⟩

theorem Reachable.run {s t : S} {es : List E} (h : M.Reachable s) (hr : M.run s es = some t) :
    M.Reachable t := by
  obtain ⟨s₀, fs, h₀, hs⟩ := h
  exact ⟨s₀, fs ++ es, h₀, run_append_eq_some.mpr ⟨s, hs, hr⟩⟩

theorem Reachable.step {s t : S} {e : E} (h : M.Reachable s) (hs : M.step s e = some t) :
    M.Reachable t :=
  h.run ((run_singleton s e).trans hs)

/-! ## Invariants along a run -/

/-- A property that every step preserves is preserved by a run. -/
theorem run_preserves {I : S → Prop} (hstep : ∀ s e s', I s → M.step s e = some s' → I s')
    {s t : S} {es : List E} (hs : I s) (hr : M.run s es = some t) : I t := by
  induction es generalizing s with
  | nil => cases hr; exact hs
  | cons e es ih =>
      obtain ⟨s', h₁, h₂⟩ := run_cons_eq_some.mp hr
      exact ih (hstep s e s' hs h₁) h₂

/-- An inductive invariant holds in every reachable state. -/
theorem Reachable.invariant {I : S → Prop} (hinit : ∀ s, M.init s → I s)
    (hstep : ∀ s e s', I s → M.step s e = some s' → I s') {s : S} (h : M.Reachable s) : I s := by
  obtain ⟨s₀, es, h₀, hr⟩ := h
  exact run_preserves hstep (hinit s₀ h₀) hr

/-- An invariant whose preservation needs that the state is reachable. -/
theorem Reachable.induct {I : S → Prop} (hinit : ∀ s, M.init s → I s)
    (hstep : ∀ s e s', M.Reachable s → I s → M.step s e = some s' → I s') {s : S}
    (h : M.Reachable s) : I s := by
  have hboth : M.Reachable s ∧ I s := by
    refine h.invariant (I := fun s => M.Reachable s ∧ I s) ?_ ?_
    · exact fun s hs => ⟨.init hs, hinit s hs⟩
    · exact fun s e s' ⟨hr, hI⟩ hs => ⟨hr.step hs, hstep s e s' hr hI hs⟩
  exact hboth.2

variable (M) in
/-- Every event of the run `es` from `s` satisfies `G` in the state it meets. -/
def Meets (G : S → E → Prop) : S → List E → Prop
  | _, [] => True
  | s, e :: es => G s e ∧ ∀ s', M.step s e = some s' → Meets G s' es

theorem meets_cons {G : S → E → Prop} {s : S} {e : E} {es : List E} :
    M.Meets G s (e :: es) ↔ G s e ∧ ∀ s', M.step s e = some s' → M.Meets G s' es := Iff.rfl

instance Meets.decidable {G : S → E → Prop} [∀ s e, Decidable (G s e)] :
    (s : S) → (es : List E) → Decidable (M.Meets G s es)
  | _, [] => isTrue trivial
  | s, e :: es =>
      match h : M.step s e with
      | none => decidable_of_iff (G s e) (by simp [meets_cons, h])
      | some s' =>
          have := Meets.decidable (G := G) s' es
          decidable_of_iff (G s e ∧ M.Meets G s' es) (by simp [meets_cons, h])

theorem meets_append {G : S → E → Prop} {s : S} {es fs : List E} :
    M.Meets G s (es ++ fs) ↔ M.Meets G s es ∧ ∀ t, M.run s es = some t → M.Meets G t fs := by
  induction es generalizing s with
  | nil => simp [Meets]
  | cons e es ih =>
      rw [List.cons_append, meets_cons, meets_cons, and_assoc]
      refine and_congr_right fun _ => ?_
      constructor
      · intro h
        refine ⟨fun s' hs' => (ih.mp (h s' hs')).1, fun t ht => ?_⟩
        obtain ⟨s', hs', hrun⟩ := run_cons_eq_some.mp ht
        exact (ih.mp (h s' hs')).2 t hrun
      · rintro ⟨h₁, h₂⟩ s' hs'
        exact ih.mpr ⟨h₁ s' hs', fun t ht => h₂ t (run_cons_eq_some.mpr ⟨s', hs', ht⟩)⟩

/-- A condition that holds wherever an event of the run occurs. -/
theorem meets_of_forall_split {G : S → E → Prop} {s : S} {es : List E}
    (h : ∀ pre e post t, es = pre ++ e :: post → M.run s pre = some t → G t e) :
    M.Meets G s es := by
  induction es generalizing s with
  | nil => trivial
  | cons e es ih =>
      refine ⟨h [] e es s rfl rfl, fun s' hs' => ih ?_⟩
      intro pre e' post t hes hrun
      exact h (e :: pre) e' post t (by rw [hes]; rfl) (run_cons_eq_some.mpr ⟨s', hs', hrun⟩)

/-- A property that every step under `G` preserves is preserved by a run that meets `G`. -/
theorem run_preserves_of_meets {I : S → Prop} {G : S → E → Prop}
    (hstep : ∀ s e s', I s → G s e → M.step s e = some s' → I s')
    {s t : S} {es : List E} (hs : I s) (hG : M.Meets G s es) (hr : M.run s es = some t) : I t := by
  induction es generalizing s with
  | nil => cases hr; exact hs
  | cons e es ih =>
      obtain ⟨s', h₁, h₂⟩ := run_cons_eq_some.mp hr
      obtain ⟨hg, hrest⟩ := meets_cons.mp hG
      exact ih (hstep s e s' hs hg h₁) (hrest s' h₁) h₂

/-! ## Runs that end -/

/-- If every step from a live state (`L`) lowers the variant `μ` or leads to a state that is not
live, then every run of more than `μ` steps has a live prefix of at most `μ` steps whose next step
is the last. -/
theorem ends_within {I L : S → Prop} {P : E → Prop} {μ : S → ℕ}
    (hstep : ∀ s e, I s → L s → P e →
      ∃ s', M.step s e = some s' ∧ I s' ∧ (L s' → μ s' < μ s))
    {es : List E} {s : S} (hs : I s) (hlive : L s) (hP : ∀ e ∈ es, P e)
    (hlen : μ s < es.length) :
    ∃ pre e post s₁ s₂, es = pre ++ e :: post ∧ pre.length ≤ μ s ∧ M.run s pre = some s₁ ∧
      L s₁ ∧ M.step s₁ e = some s₂ ∧ ¬L s₂ := by
  induction es generalizing s with
  | nil => exact absurd hlen (Nat.not_lt_zero _)
  | cons e es ih =>
      obtain ⟨s', hs', hI, hlt⟩ := hstep s e hs hlive (hP e List.mem_cons_self)
      by_cases hlive' : L s'
      · have hdec := hlt hlive'
        rw [List.length_cons] at hlen
        obtain ⟨pre, e₁, post, s₁, s₂, hes, hpre, hrun, h₁, hend, h₂⟩ :=
          ih hI hlive' (fun x hx => hP x (List.mem_cons_of_mem e hx)) (by omega)
        refine ⟨e :: pre, e₁, post, s₁, s₂, by rw [hes]; rfl, ?_, ?_, h₁, hend, h₂⟩
        · rw [List.length_cons]
          omega
        · exact run_cons_eq_some.mpr ⟨s', hs', hrun⟩
      · exact ⟨[], e, es, s, s', rfl, Nat.zero_le _, rfl, hlive, hs', hlive'⟩

/-! ## Forward simulation -/

/-- A forward simulation of `M` by `N`: related states, and for each step of `M` a run of `N` to a
related state. -/
structure Simulation {A F : Type*} (M : Machine S E) (N : Machine A F) where
  /-- The concrete state `s` is described by the abstract state `a`. -/
  rel : S → A → Prop
  /-- Every start state is described by a start state. -/
  init : ∀ s, M.init s → ∃ a, N.init a ∧ rel s a
  /-- Every step is matched by a run. -/
  step : ∀ s e s' a, rel s a → M.step s e = some s' → ∃ fs a', N.run a fs = some a' ∧ rel s' a'

/-- A reachable state is described by a reachable abstract state. -/
theorem Simulation.reachable {A F : Type*} {N : Machine A F} (σ : Simulation M N) {s : S}
    (h : M.Reachable s) : ∃ a, N.Reachable a ∧ σ.rel s a := by
  refine h.invariant (I := fun s => ∃ a, N.Reachable a ∧ σ.rel s a) ?_ ?_
  · intro s hs
    obtain ⟨a, ha, hrel⟩ := σ.init s hs
    exact ⟨a, Reachable.init ha, hrel⟩
  · rintro s e s' ⟨a, ha, hrel⟩ hs
    obtain ⟨fs, a', hrun, hrel'⟩ := σ.step s e s' a hrel hs
    exact ⟨a', ha.run hrun, hrel'⟩

end Machine

end Acromegaly.Found
