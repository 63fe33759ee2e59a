import Acromegaly.Found.Lockstep
import Acromegaly.Motion.Steps

/-!
# What the controller is for: the desk

The controller's statics say more than they need to. `Desk` is the same machine told once: a desk
that rests, or that runs in a direction, powered or coasting, and that waits out a number of ticks
without an edge before it gives up. There is no idle counter that wraps, no shadow of the movement
or of the position, and no timer beside the activity: what the controller keeps consistent by its
assignments is here one value, and `Desk.sound` is the rest of it.

`represented` is the bisimulation: after any events the controller can be told from the desk neither
by its state nor by its pins nor by whether its timer runs (`controller_observed`). What does not
show in the desk does not matter: a command that starts the motor makes the controller forget how it
got there (`start_forgets`).
-/

namespace Acromegaly

open Found

/-! ## The desk -/

/-- A direction in which the motor can run. -/
inductive Heading
  | up
  | down
  deriving DecidableEq, Repr

/-- The controller's name for it. -/
def Heading.direction : Heading → MoveDirection
  | .up => .up
  | .down => .down

theorem Heading.direction_ne_none (h : Heading) : h.direction ≠ .none := by
  cases h <;> simp [direction]

/-- What a desk is doing. -/
inductive Activity
  | resting
  /-- Edges are counted in the direction `heading`, and after `patience` more ticks without one the
  next such tick puts the desk to rest. -/
  | running (powered : Bool) (heading : Heading) (patience : ℕ)
  deriving DecidableEq, Repr

namespace Activity

/-- The direction in which the motor is powered. -/
def movement : Activity → MoveDirection
  | .running true heading _ => heading.direction
  | _ => .none

@[simp] theorem movement_running (powered : Bool) (heading : Heading) (n : ℕ) :
    (running powered heading n).movement = if powered then heading.direction else .none := by
  cases powered <;> rfl

/-- The direction in which edges are counted. -/
def counting : Activity → MoveDirection
  | .resting => .none
  | .running _ heading _ => heading.direction

/-- The motor is switched off; a desk that runs coasts on. -/
def released : Activity → Activity
  | .resting => .resting
  | .running _ heading patience => .running false heading patience

/-- A desk waits out at most 24 ticks, and it is powered only towards a target ahead of it. -/
def Sound (target position : Int16) : Activity → Prop
  | .resting => True
  | .running powered heading patience =>
      patience ≤ 24 ∧ (powered = true → Controller.aim target position = heading.direction)

end Activity

/-- A desk. -/
structure Desk where
  /-- The latest level of the input pin. -/
  level : UInt32
  position : Int16
  target : Int16
  targetType : TargetType
  activity : Activity
  sound : activity.Sound target position

namespace Desk

/-- The desk at boot. -/
def start (position : Int16) (level : UInt32) : Desk where
  level := level
  position := position
  target := nilPosition
  targetType := .none
  activity := .resting
  sound := trivial

/-- Set off in a direction. -/
def setOff (k : Desk) (heading : Heading) (target : Int16) (targetType : TargetType)
    (h : Controller.aim target k.position = heading.direction) : Desk where
  level := k.level
  position := k.position
  target := target
  targetType := targetType
  activity := .running true heading 24
  sound := ⟨Nat.le_refl 24, fun _ => h⟩

/-- Stay, with a target that is unset or already reached. -/
def stay (k : Desk) (target : Int16) (targetType : TargetType) : Desk where
  level := k.level
  position := k.position
  target := target
  targetType := targetType
  activity := k.activity.released
  sound := by
    have h := k.sound
    cases hact : k.activity with
    | resting => trivial
    | running powered heading patience =>
        rw [hact] at h
        exact ⟨h.1, by simp⟩

/-- Take over a target. -/
def pursue (k : Desk) (target : Int16) (targetType : TargetType) : Desk :=
  match h : Controller.aim target k.position with
  | .up => k.setOff .up target targetType h
  | .down => k.setOff .down target targetType h
  | .none => k.stay target targetType

theorem pursue_of_aim {k : Desk} {target : Int16} {heading : Heading}
    (h : Controller.aim target k.position = heading.direction) (targetType : TargetType) :
    k.pursue target targetType = k.setOff heading target targetType h := by
  unfold pursue
  split
  · rename_i hup
    cases heading with
    | up => rfl
    | down =>
        rw [hup] at h
        cases h
  · rename_i hdown
    cases heading with
    | up =>
        rw [hdown] at h
        cases h
    | down => rfl
  · rename_i hnone
    rw [hnone] at h
    exact absurd h.symm heading.direction_ne_none

/-- Carry out a command. -/
def command (k : Desk) (cmd : Command) : Desk :=
  match cmd.sets with
  | some (target, targetType) => k.pursue target targetType
  | none => k

theorem command_of_sets {cmd : Command} {target : Int16} {targetType : TargetType}
    (h : cmd.sets = some (target, targetType)) (k : Desk) :
    k.command cmd = k.pursue target targetType := by
  unfold command
  rw [h]

/-- What a desk that sets off has of its past is its position and the latest level. -/
theorem setOff_congr {k₁ k₂ : Desk} (hpos : k₁.position = k₂.position) (hlevel : k₁.level = k₂.level)
    {heading : Heading} {target : Int16} {targetType : TargetType}
    (h₁ : Controller.aim target k₁.position = heading.direction)
    (h₂ : Controller.aim target k₂.position = heading.direction) :
    k₁.setOff heading target targetType h₁ = k₂.setOff heading target targetType h₂ := by
  simp only [setOff, hpos, hlevel]

/-- An edge: one tick further, and the move is over if that has reached the target. -/
def edge (k : Desk) (level : UInt32) (powered : Bool) (heading : Heading)
    (h : powered = true → Controller.aim k.target k.position = heading.direction) : Desk :=
  let next := Controller.stepPosition heading.direction k.position
  if hp : Controller.Passed heading.direction k.target next then
    { level := level
      position := next
      target := nilPosition
      targetType := .none
      activity := .running false heading 23
      sound := ⟨by omega, by simp⟩ }
  else
    { level := level
      position := next
      target := k.target
      targetType := k.targetType
      activity := .running powered heading 23
      sound := ⟨by omega, fun hpow =>
        ((Controller.passed_or_aim (h hpow) heading.direction_ne_none).resolve_left
          fun hpassed => hp hpassed.1).2⟩ }

/-- The position a desk that comes to rest is taken to have. -/
def settled (k : Desk) : Int16 :=
  Controller.sanitized ⟨k.position, k.target, k.activity.movement, k.targetType⟩

/-- A tick without an edge. -/
def wait (k : Desk) (powered : Bool) (heading : Heading) (patience : ℕ)
    (h : (Activity.running powered heading patience).Sound k.target k.position) : Desk :=
  match patience, h with
  | 0, _ => .start k.settled k.level
  | n + 1, h => { k with
      activity := .running powered heading n
      sound := ⟨Nat.le_of_succ_le h.1, h.2⟩ }

/-- A tick, with the level of the input pin. A resting desk has none. -/
def tick (k : Desk) (level : UInt32) : Option Desk :=
  match h : k.activity with
  | .resting => none
  | .running powered heading patience =>
      have hsound : (Activity.running powered heading patience).Sound k.target k.position :=
        h ▸ k.sound
      if level = k.level then some (k.wait powered heading patience hsound)
      else some (k.edge level powered heading hsound.2)

theorem tick_resting {k : Desk} (h : k.activity = .resting) (level : UInt32) :
    k.tick level = none := by
  unfold tick
  split
  · rfl
  · rename_i hact
    rw [h] at hact
    cases hact

theorem tick_running {k : Desk} {powered : Bool} {heading : Heading} {n : ℕ}
    (h : k.activity = .running powered heading n)
    (hsound : (Activity.running powered heading n).Sound k.target k.position) (level : UInt32) :
    k.tick level =
      if level = k.level then some (k.wait powered heading n hsound)
      else some (k.edge level powered heading hsound.2) := by
  unfold tick
  split
  · rename_i hact
    rw [h] at hact
    cases hact
  · rename_i hact
    rw [h] at hact
    cases hact
    rfl

/-- One event. -/
def step (k : Desk) : CtrlEvent → Option Desk
  | .command cmd => some (k.command cmd)
  | .tick inPinState => k.tick inPinState

/-- The state it shows. -/
def state (k : Desk) : ControllerState := ⟨k.position, k.target, k.activity.movement, k.targetType⟩

end Desk

/-- The desk's runs, from every position and every first level. -/
def deskMachine : Machine Desk CtrlEvent where
  init k := ∃ position level, k = Desk.start position level
  step := Desk.step

/-! ## The controller is a desk -/

/-- What the controller shows: the state it reports, the motor pins and whether its timer runs. -/
def Controller.observed (c : Controller) : ControllerState × Pins × Bool :=
  (c.mState, c.pins, c.timerRunning)

/-- What the desk shows in its place. -/
def Desk.observed (k : Desk) : ControllerState × Pins × Bool :=
  (k.state, Pins.driving k.activity.movement, decide (k.activity ≠ .resting))

/-- The controller `c` is the desk `k`. -/
structure Controller.Represents (c : Controller) (k : Desk) : Prop where
  regular : c.Regular
  state : c.mState = k.state
  level : c.mPreviousInpinState = k.level
  counting : c.mInertMovement = k.activity.counting
  /-- The idle counter counts up what the desk's patience counts down. -/
  patience : ∀ powered heading n, k.activity = .running powered heading n →
    c.mIdleCounter.toNat + n = 24

namespace Controller

variable {c : Controller} {k : Desk}

theorem represents_start (p : Int16) (r : UInt32) : (boot p r).Represents (.start p r) where
  regular := boot_regular p r
  state := boot_mState p r
  level := by simp [boot, controllerRegisterCb, controllerInit, controllerCallCb, Desk.start]
  counting := by
    simp [boot, controllerRegisterCb, controllerInit, controllerCallCb, Desk.start,
      Activity.counting]
  patience := by simp [Desk.start]

theorem Represents.position (h : c.Represents k) : c.mState.position = k.position := by
  rw [h.state]
  rfl

/-- The timer runs unless the desk rests. -/
theorem Represents.timerRunning_iff (h : c.Represents k) :
    c.timerRunning = true ↔ k.activity ≠ .resting := by
  rw [h.regular.running, h.counting]
  cases k.activity with
  | resting => simp [Activity.counting]
  | running powered heading patience =>
      simp [Activity.counting, heading.direction_ne_none]

theorem Represents.observed_eq (h : c.Represents k) : c.observed = k.observed := by
  have htimer : c.timerRunning = decide (k.activity ≠ .resting) := by
    rw [Bool.eq_iff_iff, h.timerRunning_iff, decide_eq_true_iff]
  unfold observed Desk.observed
  rw [h.regular.pins, h.state, htimer]
  rfl

/-- A controller that sets off is a desk that sets off. -/
theorem Represents.setOff (h : c.Represents k) {heading : Heading} {t : Int16} {ty : TargetType}
    (haim : aim t k.position = heading.direction) :
    (c.aimed t ty).Represents (k.setOff heading t ty haim) := by
  have haim' : aim t c.mState.position = heading.direction := by rw [h.position, haim]
  have hne := heading.direction_ne_none
  refine ⟨h.regular.aimed t ty, ?_, h.level, ?_, ?_⟩
  · show ControllerState.mk _ _ _ _ = _
    rw [haim', h.position]
    rfl
  · rw [aimed_mInertMovement, haim', if_neg hne]
    rfl
  · rintro _ _ _ ⟨⟩
    rw [aimed_mIdleCounter, haim', if_neg hne]
    rfl

/-- A controller that is given a target that starts nothing stays or coasts on. -/
theorem Represents.stay (h : c.Represents k) {t : Int16} {ty : TargetType}
    (haim : aim t k.position = .none) : (c.aimed t ty).Represents (k.stay t ty) := by
  have haim' : aim t c.mState.position = .none := by rw [h.position, haim]
  have hcounting : k.activity.released.counting = k.activity.counting := by
    cases k.activity <;> rfl
  have hmovement : k.activity.released.movement = .none := by
    cases k.activity <;> rfl
  refine ⟨h.regular.aimed t ty, ?_, h.level, ?_, ?_⟩
  · show ControllerState.mk _ _ _ _ = ControllerState.mk _ _ k.activity.released.movement _
    rw [haim', h.position, hmovement]
    rfl
  · rw [aimed_mInertMovement, haim', if_pos rfl, h.counting]
    exact hcounting.symm
  · intro powered heading n hact
    rw [aimed_mIdleCounter, haim', if_pos rfl]
    have hrel : k.activity.released = .running powered heading n := hact
    cases hk : k.activity with
    | resting =>
        rw [hk] at hrel
        cases hrel
    | running on heading₀ n₀ =>
        rw [hk] at hrel
        cases hrel
        exact h.patience on _ _ hk

theorem Represents.command (h : c.Represents k) (cmd : Command) :
    (c.command cmd).Represents (k.command cmd) := by
  unfold Desk.command
  rcases hcmd : cmd.sets with _ | ⟨t, ty⟩
  · rw [command_of_sets_none hcmd]
    exact h
  · rw [h.regular.command_of_sets hcmd]
    show (c.aimed t ty).Represents (k.pursue t ty)
    unfold Desk.pursue
    split
    · exact h.setOff _
    · exact h.setOff _
    · rename_i haim
      exact h.stay haim

/-- An edge of a controller is an edge of the desk. -/
theorem Represents.edge (h : c.Represents k) (hrun : c.timerRunning = true) {r : UInt32}
    (hr : r ≠ c.mPreviousInpinState) {powered : Bool} {heading : Heading} {n : ℕ}
    (hact : k.activity = .running powered heading n)
    (haim : powered = true → aim k.target k.position = heading.direction) :
    (c.timerTimeoutHandler r).Represents (k.edge r powered heading haim) := by
  have hcount : c.mInertMovement = heading.direction := by
    rw [h.counting, hact]
    rfl
  have htarget : c.mState.target = k.target := by
    rw [h.state]
    rfl
  have hnext : c.nextPosition = stepPosition heading.direction k.position := by
    unfold nextPosition
    rw [hcount, h.position]
  have hreg := h.regular.tick hrun r
  unfold Desk.edge
  dsimp only
  rcases h.regular.tick_cases_of_ne hrun hr with ⟨hp, heq⟩ | ⟨hp, heq⟩
  · rw [hcount, htarget, hnext] at hp
    rw [dif_pos hp]
    rw [heq] at hreg ⊢
    refine ⟨hreg, ?_, rfl, hcount, ?_⟩
    · show restState c.nextPosition = _
      rw [hnext]
      rfl
    · rintro _ _ _ ⟨⟩
      rfl
  · rw [hcount, htarget, hnext] at hp
    rw [dif_neg hp]
    rw [heq] at hreg ⊢
    refine ⟨hreg, ?_, rfl, hcount, ?_⟩
    · show { c.mState with position := c.nextPosition } = _
      rw [hnext, h.state]
      unfold Desk.state
      rw [hact, Activity.movement_running, Activity.movement_running]
    · rintro _ _ _ ⟨⟩
      rfl

/-- So is a tick without one: either the patience is used up, or there is one tick less of it. -/
theorem Represents.wait (h : c.Represents k) {r : UInt32} (hr : r = c.mPreviousInpinState)
    {powered : Bool} {heading : Heading} {n : ℕ} (hact : k.activity = .running powered heading n)
    (hsound : (Activity.running powered heading n).Sound k.target k.position) :
    (c.timerTimeoutHandler r).Represents (k.wait powered heading n hsound) := by
  have hpatience := h.patience powered heading n hact
  have hrun : c.timerRunning = true := h.timerRunning_iff.mpr (by simp [hact])
  have hreg := h.regular.tick hrun r
  cases n with
  | zero =>
      have hstalled : c.stalled := by
        have hidle : c.mIdleCounter.toNat = 24 := hpatience
        rcases h.regular.settled with hp | hz
        · exact ⟨hp, UInt8.le_iff_toNat_le.mpr (Nat.le_of_eq hidle.symm)⟩
        · rw [hz, UInt8.toNat_zero] at hidle
          omega
      rcases h.regular.tick_cases_of_eq hr with ⟨hs, -⟩ | ⟨-, heq⟩
      · exact absurd hstalled hs
      · rw [heq] at hreg ⊢
        refine ⟨hreg, ?_, h.level, rfl, by simp [Desk.wait, Desk.start]⟩
        show restState (sanitized c.mState) = restState (sanitized k.state)
        rw [h.state]
  | succ n =>
      have hnot : ¬c.stalled := by
        intro hs
        have hle : 24 ≤ c.mIdleCounter.toNat := UInt8.le_iff_toNat_le.mp hs.2
        omega
      rcases h.regular.tick_cases_of_eq hr with ⟨-, heq⟩ | ⟨hs, -⟩
      · rw [heq] at hreg ⊢
        refine ⟨hreg, ?_, h.level, ?_, ?_⟩
        · show c.mState = _
          rw [h.state]
          unfold Desk.state Desk.wait
          rw [hact, Activity.movement_running, Activity.movement_running]
        · show c.mInertMovement = _
          rw [h.counting, hact]
          rfl
        · rintro _ _ _ ⟨⟩
          rw [unmoved_mIdleCounter, UInt8.toNat_add, UInt8.toNat_one]
          omega
      · exact absurd hs hnot

/-- **The controller and the desk go in step.** -/
def represented : Machine.Bisimulation controllerMachine deskMachine where
  rel := Represents
  step := by
    intro c k e h
    cases e with
    | command cmd => exact .some (h.command cmd)
    | tick r =>
        show Option.Rel Represents (if c.timerRunning then some (c.timerTimeoutHandler r) else none)
          (k.tick r)
        cases hact : k.activity with
        | resting =>
            have hoff : ¬c.timerRunning = true := by
              rw [h.timerRunning_iff, hact]
              simp
            rw [if_neg hoff, Desk.tick_resting hact]
            exact .none
        | running powered heading n =>
            have hrun : c.timerRunning = true := h.timerRunning_iff.mpr (by simp [hact])
            have hsound := k.sound
            rw [hact] at hsound
            rw [if_pos hrun, Desk.tick_running hact hsound]
            split_ifs with hr
            · exact .some (h.wait (hr.trans h.level.symm) hact hsound)
            · exact .some (h.edge hrun (by rwa [h.level]) hact hsound.2)

/-- A tick of a running timer is a tick of the desk. -/
theorem Represents.tick (h : c.Represents k) (hrun : c.timerRunning = true) (r : UInt32) :
    ∃ k', deskMachine.step k (.tick r) = some k' ∧ (c.timerTimeoutHandler r).Represents k' := by
  have hrel := represented.step c k (.tick r) h
  have htick : controllerMachine.step c (.tick r) = some (c.timerTimeoutHandler r) := if_pos hrun
  rw [htick] at hrel
  generalize deskMachine.step k (.tick r) = next at hrel
  cases hrel with
  | some hdesk => exact ⟨_, rfl, hdesk⟩

/-! ## What follows -/

/-- **The controller is the desk.** From any boot position, after any commands and ticks: the
events can occur one after the other for the controller exactly if they can for the desk, and the
two then show the same state, the same pins and the same timer. -/
theorem controller_observed (p : Int16) (r : UInt32) (es : List CtrlEvent) :
    (controllerMachine.run (boot p r) es).map observed =
      (deskMachine.run (.start p r) es).map Desk.observed :=
  represented.map_run (fun _ _ h => h.observed_eq) (represents_start p r) es

/-- Every reachable controller is a desk. -/
theorem exists_represents (h : controllerMachine.Reachable c) : ∃ k, c.Represents k := by
  obtain ⟨_, es, ⟨p, r, rfl⟩, hrun⟩ := h
  obtain ⟨k, -, hk⟩ := represented.run_eq_some (represents_start p r) hrun
  exact ⟨k, hk⟩

theorem exists_heading {d : MoveDirection} (h : d ≠ .none) : ∃ heading : Heading,
    d = heading.direction := by
  cases d with
  | up => exact ⟨.up, rfl⟩
  | down => exact ⟨.down, rfl⟩
  | none => exact absurd rfl h

/-- **A start forgets the past.** Two reachable controllers at the same position, with the same latest
reading, are sent to a target that starts the motor. Whatever they were doing before, in the middle
of a move, coasting or at rest, with whatever target and idle count, from then on they cannot be
told apart. -/
theorem start_forgets {c₁ c₂ : Controller} (h₁ : controllerMachine.Reachable c₁)
    (h₂ : controllerMachine.Reachable c₂) (hpos : c₁.mState.position = c₂.mState.position)
    (hlevel : c₁.mPreviousInpinState = c₂.mPreviousInpinState) {cmd : Command} {t : Int16}
    {ty : TargetType} (hcmd : cmd.sets = some (t, ty)) (hstart : aim t c₁.mState.position ≠ .none)
    (es : List CtrlEvent) :
    (controllerMachine.run (c₁.command cmd) es).map observed =
      (controllerMachine.run (c₂.command cmd) es).map observed := by
  obtain ⟨k₁, hk₁⟩ := exists_represents h₁
  obtain ⟨k₂, hk₂⟩ := exists_represents h₂
  obtain ⟨heading, haim⟩ := exists_heading hstart
  have haim₁ : aim t k₁.position = heading.direction := by rw [← hk₁.position, haim]
  have haim₂ : aim t k₂.position = heading.direction := by rw [← hk₂.position, ← hpos, haim]
  have hsame : k₁.command cmd = k₂.command cmd := by
    rw [Desk.command_of_sets hcmd, Desk.command_of_sets hcmd, Desk.pursue_of_aim haim₁,
      Desk.pursue_of_aim haim₂]
    exact Desk.setOff_congr (hk₁.position.symm.trans (hpos.trans hk₂.position))
      (hk₁.level.symm.trans (hlevel.trans hk₂.level)) haim₁ haim₂
  have hdesk := represented.map_run (fun _ _ h => h.observed_eq) (hk₁.command cmd) es
  rw [hsame] at hdesk
  exact hdesk.trans (represented.map_run (fun _ _ h => h.observed_eq) (hk₂.command cmd) es).symm

/-- A desk that rests at tick `100`, and one that has been stopped there on its way up and coasts:
sent to tick `90` they do the same. -/
theorem start_forgets_coasting :
    ∃ c₁ c₂, controllerMachine.run (boot 100 1) [] = some c₁ ∧
      controllerMachine.run (boot 99 0) [.command (.target 300), .tick 1, .command .stop] = some c₂ ∧
      c₁.timerRunning = false ∧ c₂.timerRunning = true ∧
      ∀ es, (controllerMachine.run (c₁.command (.target 90)) es).map observed =
        (controllerMachine.run (c₂.command (.target 90)) es).map observed := by
  have hsets : (Command.target 90).sets = some (90, .exact) := rfl
  exact ⟨_, _, rfl, rfl, rfl, rfl, start_forgets ⟨_, [], ⟨100, 1, rfl⟩, rfl⟩
    ⟨_, [.command (.target 300), .tick 1, .command .stop], ⟨99, 0, rfl⟩, rfl⟩ rfl rfl hsets (by decide)⟩

end Controller

end Acromegaly
