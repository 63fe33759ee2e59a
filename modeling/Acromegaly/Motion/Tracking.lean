import Acromegaly.Motion.Accounting
import Acromegaly.Motion.Calibration

/-!
# The counter and the desk

The controller never sees the desk. It sees one track of an encoder, whose level changes with every
tick the desk moves, at the instants its timer ticks, and it takes the direction from the motor. This
file closes the loop with a desk that moves as it likes between two ticks of the timer (`Plant`; it
does not move while the timer is stopped).

* Over every stretch without an idle timeout the counter is off by exactly what the sampling cannot
  tell: of the ticks between two readings only whether their number is odd shows, and an odd number
  counts as one in the direction the motor was last energised in, even if the desk runs on against a
  reversed motor (`counter_off_by_drift`).
* If the desk moves at most one tick between two readings, in that direction, and under an extremum
  command gives up only at the end it was sent to, then the counter is the position of the desk for
  ever, through commands, coasting and idle timeouts (`counter_tracks`).
-/

namespace Acromegaly

open Found

/-! ## The track -/

/-- One track of an encoder: the level changes with every tick. -/
structure Track where
  level : ℤ → UInt32
  alternates : ∀ x y, level x = level y ↔ x % 2 = y % 2

/-- Levels 0 and 1. -/
def Track.binary : Track where
  level x := if x % 2 = 0 then 0 else 1
  alternates := by
    intro x y
    have hx := Int.emod_two_eq_zero_or_one x
    have hy := Int.emod_two_eq_zero_or_one y
    rcases hx with hx | hx
    · rcases hy with hy | hy
      · simp [hx, hy]
      · simp [hx, hy]
    · rcases hy with hy | hy
      · simp [hx, hy]
      · simp [hx, hy]

/-- A reading shows whether the number of ticks moved is odd. -/
theorem Track.level_eq_iff (track : Track) (x δ : ℤ) :
    track.level (x + δ) = track.level x ↔ δ % 2 = 0 := by
  rw [track.alternates]
  omega

/-! ## The closed loop -/

/-- The controller and the desk. -/
structure Plant where
  controller : Controller
  /-- Where the desk is, in ticks above its lower end. -/
  desk : ℤ
  /-- History: how far the desk has moved, less what a sampled track can tell of it. -/
  drift : ℤ

/-- What can happen: a command, or the desk has moved and the timer ticks. -/
inductive PlantEvent
  | command (cmd : Command)
  | tick (δ : ℤ)

namespace Plant

/-- One event. -/
def step (track : Track) (s : Plant) : PlantEvent → Option Plant
  | .command cmd => some { s with controller := s.controller.command cmd }
  | .tick δ =>
      (controllerMachine.step s.controller (.tick (track.level (s.desk + δ)))).map fun c =>
        { controller := c
          desk := s.desk + δ
          drift := s.drift + (δ - s.controller.mInertMovement.sign * (δ % 2)) }

end Plant

/-- The closed loop, from every boot position and every position of the desk. -/
def plantMachine (track : Track) : Machine Plant PlantEvent where
  init s := ∃ position desk, s = ⟨.boot position (track.level desk), desk, 0⟩
  step := Plant.step track

/-- What the event is to the controller. -/
def PlantEvent.ctrlEvent (track : Track) (s : Plant) : PlantEvent → CtrlEvent
  | .command cmd => .command cmd
  | .tick δ => .tick (track.level (s.desk + δ))

namespace Plant

variable {track : Track} {s s' : Plant} {e : PlantEvent}

theorem step_controller (hstep : (plantMachine track).step s e = some s') :
    controllerMachine.step s.controller (e.ctrlEvent track s) = some s'.controller := by
  cases e with
  | command cmd =>
      cases hstep
      rfl
  | tick δ =>
      obtain ⟨c, hc, rfl⟩ := Option.map_eq_some_iff.mp hstep
      exact hc

/-- The latest reading is that of the desk. -/
structure Sighted (track : Track) (s : Plant) : Prop where
  regular : s.controller.Regular
  reading : s.controller.mPreviousInpinState = track.level s.desk

theorem Sighted.step (h : s.Sighted track) (hstep : (plantMachine track).step s e = some s') :
    s'.Sighted track := by
  cases e with
  | command cmd =>
      cases hstep
      refine ⟨h.regular.command cmd, ?_⟩
      rcases h.regular.command_cases cmd with heq | ⟨t, ty, heq⟩
      · rw [heq]
        exact h.reading
      · rw [heq]
        exact h.reading
  | tick δ =>
      obtain ⟨c, hc, rfl⟩ := Option.map_eq_some_iff.mp hstep
      obtain ⟨hrun, rfl⟩ := Controller.step_tick_eq_some.mp hc
      exact ⟨h.regular.tick hrun _, h.regular.tick_mPreviousInpinState hrun _⟩

theorem reachable_sighted (h : (plantMachine track).Reachable s) : s.Sighted track := by
  refine h.invariant ?_ fun s e s' hs hstep => hs.step hstep
  rintro _ ⟨position, desk, rfl⟩
  refine ⟨Controller.boot_regular position _, ?_⟩
  simp [Controller.boot, Controller.controllerRegisterCb, Controller.controllerInit,
    Controller.controllerCallCb]

/-- A tick that is not the idle timeout counts an odd number of ticks as one and an even number as
none. -/
theorem Sighted.tick_position (h : s.Sighted track) {δ : ℤ}
    (hno : ¬((PlantEvent.tick δ).ctrlEvent track s).IdleTimeout s.controller)
    (hstep : (plantMachine track).step s (.tick δ) = some s') :
    s'.controller.mState.position.toInt =
      (s.controller.mState.position.toInt +
        s.controller.mInertMovement.sign * (δ % 2)).bmod (2 ^ 16) := by
  obtain ⟨hrun, hc⟩ := Controller.step_tick_eq_some.mp (step_controller hstep)
  rw [← hc, (h.regular.tick_counts hrun hno).2, h.reading]
  have hlevel := track.level_eq_iff s.desk δ
  split_ifs with hr
  · rw [hlevel.mp hr]
    simp
  · have hodd : δ % 2 = 1 := by
      have hne := mt hlevel.mpr hr
      omega
    rw [hodd, Int.mul_one]
    exact Controller.toInt_stepPosition _ _

/-- Unless it is the idle timeout, an event moves the counter as it moves the desk, less the drift. -/
theorem Sighted.step_position (h : s.Sighted track)
    (hno : ¬(e.ctrlEvent track s).IdleTimeout s.controller)
    (hstep : (plantMachine track).step s e = some s') :
    s'.controller.mState.position.toInt =
      (s.controller.mState.position.toInt + (s'.desk - s.desk) -
        (s'.drift - s.drift)).bmod (2 ^ 16) := by
  cases e with
  | command cmd =>
      cases hstep
      have hsame : s.controller.mState.position.toInt + (s.desk - s.desk) -
          (s.drift - s.drift) = s.controller.mState.position.toInt := by omega
      rw [h.regular.command_position cmd, hsame]
      exact (Int16.toInt_bmod _).symm
  | tick δ =>
      have hpos := h.tick_position hno hstep
      obtain ⟨c, -, rfl⟩ := Option.map_eq_some_iff.mp hstep
      rw [hpos]
      congr 1
      show _ = _ + (s.desk + δ - s.desk) -
        (s.drift + (δ - s.controller.mInertMovement.sign * (δ % 2)) - s.drift)
      omega

/-- **What sampling cannot tell.** In every state the closed loop can reach, over every stretch of
commands and ticks without an idle timeout, however the desk moves: the counter moves as the desk
does, less the drift, as a 16-bit number. -/
theorem counter_off_by_drift (h : (plantMachine track).Reachable s) {es : List PlantEvent}
    (hrun : (plantMachine track).run s es = some s')
    (hno : (plantMachine track).Meets
      (fun s e => ¬(e.ctrlEvent track s).IdleTimeout s.controller) s es) :
    s'.controller.mState.position.toInt =
      (s.controller.mState.position.toInt + (s'.desk - s.desk) -
        (s'.drift - s.drift)).bmod (2 ^ 16) := by
  have hs := reachable_sighted h
  clear h
  induction es generalizing s with
  | nil =>
      cases hrun
      rw [Int.sub_self, Int.sub_self, Int.add_zero, Int.sub_zero]
      exact (Int16.toInt_bmod _).symm
  | cons e es ih =>
      obtain ⟨s₁, hstep, hrest⟩ := Machine.run_cons_eq_some.mp hrun
      obtain ⟨he, hlater⟩ := Machine.meets_cons.mp hno
      have hfirst := hs.step_position he hstep
      have hregroup : ∀ x : ℤ, x.bmod (2 ^ 16) + (s'.desk - s₁.desk) - (s'.drift - s₁.drift) =
          x.bmod (2 ^ 16) + (s'.desk - s₁.desk - (s'.drift - s₁.drift)) := by
        intro x
        omega
      rw [ih hrest (hlater s₁ hstep) (hs.step hstep), hfirst, hregroup, Int.bmod_add_bmod]
      congr 1
      omega

/-- A desk on its way up that is reversed and runs on for a tick, which counts downwards. -/
theorem counter_off_by_drift_reversed :
    ∃ s', (plantMachine .binary).run ⟨.boot 100 0, 100, 0⟩
        [.command (.target 300), .tick 1, .command (.target 20), .tick 1] = some s' ∧
      s'.controller.mState.position.toInt =
        ((Controller.boot 100 0).mState.position.toInt + (s'.desk - 100) -
          (s'.drift - 0)).bmod (2 ^ 16) ∧
      s'.desk = 102 ∧ s'.drift = 2 := by
  have hreach : (plantMachine .binary).Reachable ⟨.boot 100 0, 100, 0⟩ := .init ⟨100, 100, rfl⟩
  have hno : (plantMachine .binary).Meets
      (fun s e => ¬(e.ctrlEvent .binary s).IdleTimeout s.controller) ⟨.boot 100 0, 100, 0⟩
      [.command (.target 300), .tick 1, .command (.target 20), .tick 1] := by decide
  have hrun : ∃ s', (plantMachine .binary).run ⟨.boot 100 0, 100, 0⟩
      [.command (.target 300), .tick 1, .command (.target 20), .tick 1] = some s' ∧
      s'.desk = 102 ∧ s'.drift = 2 := ⟨_, rfl, rfl, rfl⟩
  obtain ⟨s', hs', hdesk, hdrift⟩ := hrun
  have hpos := counter_off_by_drift hreach hs' hno
  exact ⟨s', hs', hpos, hdesk, hdrift⟩

/-! ## A desk that is slow enough -/

/-- The desk moves at most one tick between two readings, in the direction last energised, and stays
between its ends; and when the controller gives up under an extremum command it is at the end it was
sent to. -/
def Slow (track : Track) (s : Plant) : PlantEvent → Prop
  | .command _ => True
  | .tick δ =>
      (δ = 0 ∨ δ = s.controller.mInertMovement.sign) ∧ 0 ≤ s.desk + δ ∧ s.desk + δ ≤ 816 ∧
        ((CtrlEvent.tick (track.level (s.desk + δ))).IdleTimeout s.controller →
          (s.controller.mState.targetType = .extremumMax → s.desk + δ = 816) ∧
          (s.controller.mState.targetType = .extremumMin → s.desk + δ = 0))

instance (track : Track) (s : Plant) (e : PlantEvent) : Decidable (Slow track s e) := by
  cases e <;> unfold Slow <;> infer_instance

/-- The counter is the desk's position, between its ends. -/
structure Tracks (track : Track) (s : Plant) : Prop where
  sighted : s.Sighted track
  position : s.controller.mState.position.toInt = s.desk
  lower : 0 ≤ s.desk
  upper : s.desk ≤ 816

/-- An idle timeout of a controller that is right about the desk leaves it right. -/
theorem Tracks.sanitized (h : s.Tracks track)
    (hmax : s.controller.mState.targetType = .extremumMax → s.desk = 816)
    (hmin : s.controller.mState.targetType = .extremumMin → s.desk = 0) :
    (Controller.sanitized s.controller.mState).toInt = s.desk := by
  have hupper : ticksUpperLimit.toInt = 816 := rfl
  have hlower : tickLowerLimit.toInt = 0 := rfl
  have hpos := h.position
  have hlow := h.lower
  have hhigh := h.upper
  have hmem : tickLowerLimit ≤ s.controller.mState.position ∧
      s.controller.mState.position ≤ ticksUpperLimit := by
    rw [Int16.le_iff_toInt_le, Int16.le_iff_toInt_le]
    omega
  cases hty : s.controller.mState.targetType with
  | extremumMax => rw [Controller.sanitized_extremumMax hty, hupper, hmax hty]
  | extremumMin =>
      rw [(Controller.sanitized_extremumMin hty).mpr (by omega), hlower, hmin hty]
  | none => rw [Controller.sanitized_of_mem (.inl hty) hmem.1 hmem.2, hpos]
  | exact => rw [Controller.sanitized_of_mem (.inr hty) hmem.1 hmem.2, hpos]

theorem Tracks.step (h : s.Tracks track) (hslow : Slow track s e)
    (hstep : (plantMachine track).step s e = some s') : s'.Tracks track := by
  have hsighted := h.sighted.step hstep
  cases e with
  | command cmd =>
      cases hstep
      refine ⟨hsighted, ?_, h.lower, h.upper⟩
      exact (congrArg Int16.toInt (h.sighted.regular.command_position cmd)).trans h.position
  | tick δ =>
      obtain ⟨hδ, hlow, hhigh, hends⟩ := hslow
      have hdesk : s'.desk = s.desk + δ := by
        obtain ⟨c, -, rfl⟩ := Option.map_eq_some_iff.mp hstep
        rfl
      refine ⟨hsighted, ?_, hdesk ▸ hlow, hdesk ▸ hhigh⟩
      obtain ⟨hrun, hc⟩ := Controller.step_tick_eq_some.mp (step_controller hstep)
      have hne : s.controller.mInertMovement.sign = 1 ∨ s.controller.mInertMovement.sign = -1 := by
        have hrunning := h.sighted.regular.running.mp hrun
        cases hd : s.controller.mInertMovement with
        | up => exact .inl rfl
        | down => exact .inr rfl
        | none => exact absurd hd hrunning
      by_cases hidle : (CtrlEvent.tick (track.level (s.desk + δ))).IdleTimeout s.controller
      · -- the timeout is a tick without an edge, so the desk has not moved
        obtain ⟨hsame, -⟩ := h.sighted.regular.stalled_of_samplePin hrun hidle
        rw [h.sighted.reading, track.level_eq_iff] at hsame
        obtain rfl : δ = 0 := by omega
        obtain ⟨hmax, hmin⟩ := hends hidle
        rw [Int.add_zero] at hmax hmin hdesk
        rw [← hc, h.sighted.regular.tick_of_stalled hrun hidle, hdesk]
        exact h.sanitized hmax hmin
      · have hpos := h.sighted.tick_position hidle hstep
        have hcounted : s.controller.mInertMovement.sign * (δ % 2) = δ := by
          rcases hδ with rfl | rfl
          · simp
          · rcases hne with hd | hd
            · rw [hd]
              rfl
            · rw [hd]
              rfl
        rw [hpos, hcounted, h.position, hdesk]
        exact Int.bmod_eq_of_le (by omega) (by omega)

/-- **The counter is the desk.** A desk between its ends whose position the flash had right, that
moves at most one tick between two readings, in the direction last energised, and that is at the end
it was sent to whenever the controller gives up under an extremum command: the counter is its
position after every run, through any commands, overruns after a stop or an arrival, and idle
timeouts. -/
theorem counter_tracks {p : Int16} {desk : ℤ} (hp : p.toInt = desk) (hlow : 0 ≤ desk)
    (hhigh : desk ≤ 816) {es : List PlantEvent}
    (hslow : (plantMachine track).Meets (Slow track) ⟨.boot p (track.level desk), desk, 0⟩ es)
    (hrun : (plantMachine track).run ⟨.boot p (track.level desk), desk, 0⟩ es = some s) :
    s.controller.mState.position.toInt = s.desk := by
  have hboot : Tracks track ⟨.boot p (track.level desk), desk, 0⟩ := by
    refine ⟨reachable_sighted (.init ⟨p, desk, rfl⟩), ?_, hlow, hhigh⟩
    exact (congrArg (fun st => st.position.toInt) (Controller.boot_mState p _)).trans hp
  exact (Machine.run_preserves_of_meets (fun s e s' hs he hstep => hs.step he hstep) hboot hslow
    hrun).position

/-- A desk that is sent up from tick `2`, stopped, and runs on for a tick. -/
def overrun : List PlantEvent :=
  [.command (.target 40), .tick 1, .tick 0, .tick 1, .command .stop, .tick 1]

theorem counter_tracks_overrun :
    ∃ s, (plantMachine .binary).run ⟨.boot 2 (Track.level .binary 2), 2, 0⟩ overrun = some s ∧
      s.controller.mState.position.toInt = s.desk ∧ s.desk = 5 := by
  have hslow : (plantMachine .binary).Meets (Slow .binary)
      ⟨.boot 2 (Track.level .binary 2), 2, 0⟩ overrun := by decide
  exact ⟨_, rfl, counter_tracks rfl (by decide) (by decide) hslow rfl, rfl⟩

end Plant

end Acromegaly
