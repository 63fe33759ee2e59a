import Acromegaly.Model.Controller
import Mathlib.Tactic.Simps.Basic
import Mathlib.Tactic.SplitIfs

/-!
# What the controller's functions do

`controller.c` is a small call graph (`timer_timeout_handler` calls `update_position`, which calls
`controller_stop`, which calls `set_target_pos`, which calls `set_movement_dir`). This file says
once, for each function, what it leaves behind, so that no later proof unfolds one.

* `setMovementDir_eq`, `setTargetPos_eq`: the movement a target selects is `aim target position`,
  and the pins follow it (`Pins.driving`).
* `Regular`: the relation between the statics that every reachable controller keeps.
* `command_cases`, `tick_cases`: the inversion lemmas. A command is ignored or sets a target
  (`Command.sets`); a tick arrives at the target, counts an edge, sees no edge, or is the idle
  timeout.
-/

namespace Acromegaly

/-- The levels `set_movement_dir` leaves behind. -/
def Pins.driving : MoveDirection → Pins
  | .up => ⟨true, false, true⟩
  | .down => ⟨false, true, true⟩
  | .none => Pins.off

/-- The five writes leave the levels of their direction, whatever the levels were. -/
theorem Pins.writeAll_motorWrites (p : Pins) (d : MoveDirection) :
    p.writeAll (Controller.motorWrites d) = Pins.driving d := by
  cases d <;> rfl

namespace Controller

/-! ## The movement a target selects -/

/-- The direction `set_target_pos` drives in: none for an unset target or one already reached. -/
def aim (target position : Int16) : MoveDirection :=
  if target = nilPosition ∨ target = position then .none
  else if target < position then .down
  else .up

theorem aim_eq_none {t p : Int16} : aim t p = .none ↔ t = nilPosition ∨ t = p := by
  unfold aim
  split_ifs with h₁ h₂ <;> simp [h₁]

theorem aim_eq_up {t p : Int16} : aim t p = .up ↔ t ≠ nilPosition ∧ p < t := by
  unfold aim
  split_ifs with h₁ h₂ <;> grind

theorem aim_eq_down {t p : Int16} : aim t p = .down ↔ t ≠ nilPosition ∧ t < p := by
  unfold aim
  split_ifs with h₁ h₂ <;> grind

@[simp] theorem aim_nil (p : Int16) : aim nilPosition p = .none := by simp [aim]

/-! ## The functions, one by one -/

theorem ctrTimerTicksStopThreshold_eq : ctrTimerTicksStopThreshold = 24 := rfl

theorem controllerCallCb_of_mCb {c : Controller} (h : c.mCb = true) :
    c.controllerCallCb = { c with cbCalls := c.cbCalls ++ [c.mState] } := by
  unfold controllerCallCb
  rw [if_pos h]

/-- `set_movement_dir` in closed form: the pins follow the direction, and a direction other than
none takes over the counting direction, resets the idle counter and starts the timer. -/
theorem setMovementDir_eq (d : MoveDirection) (c : Controller) :
    c.setMovementDir d = controllerCallCb
      { c with
        mState := { c.mState with movement := d }
        pins := Pins.driving d
        mInertMovement := if d = .none then c.mInertMovement else d
        mIdleCounter := if d = .none then c.mIdleCounter else 0
        timerRunning := if d = .none then c.timerRunning else true } := by
  unfold setMovementDir
  rw [Pins.writeAll_motorWrites]
  cases d <;> rfl

/-- `set_target_pos` drives in the direction `aim` selects; its three tests leave no case out. -/
theorem setTargetPos_eq (t : Int16) (ty : TargetType) (c : Controller) :
    c.setTargetPos t ty =
      { c with mState := { c.mState with target := t, targetType := ty } }.setMovementDir
        (aim t c.mState.position) := by
  unfold setTargetPos aim
  simp only
  split_ifs with h₁ h₂ h₃
  · rfl
  · rfl
  · rfl
  · grind

/-- What `set_target_pos` leaves behind once the callback is registered. -/
@[simps] def aimed (t : Int16) (ty : TargetType) (c : Controller) : Controller :=
  let d := aim t c.mState.position
  let st : ControllerState := ⟨c.mState.position, t, d, ty⟩
  { c with
    mState := st
    pins := Pins.driving d
    mInertMovement := if d = .none then c.mInertMovement else d
    mIdleCounter := if d = .none then c.mIdleCounter else 0
    timerRunning := if d = .none then c.timerRunning else true
    cbCalls := c.cbCalls ++ [st] }

theorem setTargetPos_eq_aimed {c : Controller} (h : c.mCb = true) (t : Int16) (ty : TargetType) :
    c.setTargetPos t ty = c.aimed t ty := by
  rw [setTargetPos_eq, setMovementDir_eq]
  exact controllerCallCb_of_mCb h

/-- The counter after one counted edge in a direction. -/
def stepPosition (d : MoveDirection) (p : Int16) : Int16 :=
  match d with
  | .up => p + 1
  | .down => p - 1
  | .none => p

/-- The comparison of `update_position` that ends a move in direction `d`. -/
def Passed (d : MoveDirection) (t p : Int16) : Prop :=
  match d with
  | .up => t ≠ nilPosition ∧ p ≥ t
  | .down => t ≠ nilPosition ∧ p ≤ t
  | .none => False

instance (d : MoveDirection) (t p : Int16) : Decidable (Passed d t p) := by
  cases d <;> unfold Passed <;> infer_instance

/-- The counter after an edge in the inert direction. -/
def nextPosition (c : Controller) : Int16 := stepPosition c.mInertMovement c.mState.position

/-- `update_position` counts one edge in the inert direction. -/
theorem updatePosition_eq (c : Controller) :
    c.updatePosition =
      if Passed c.mInertMovement c.mState.target c.nextPosition
      then (c.setPosition c.nextPosition).controllerStop
      else c.setPosition c.nextPosition := by
  unfold updatePosition Passed nextPosition stepPosition
  cases c.mInertMovement <;> rfl

/-- The position `sanitize_position` stores. -/
def sanitized (st : ControllerState) : Int16 :=
  if st.position > ticksUpperLimit ∨ st.targetType = .extremumMax then ticksUpperLimit
  else if st.position < tickLowerLimit ∨ st.targetType = .extremumMin then tickLowerLimit
  else st.position

theorem sanitizePosition_eq (c : Controller) :
    c.sanitizePosition = c.setPosition (sanitized c.mState) := by
  unfold sanitizePosition sanitized
  split_ifs <;> rfl

/-! ## The four outcomes of a tick -/

/-- The state a stop leaves at position `p`. -/
def restState (p : Int16) : ControllerState := ⟨p, nilPosition, .none, .none⟩

/-- A counted edge that ends the move: `update_position` has called `controller_stop`. -/
@[simps] def arrived (r : UInt32) (c : Controller) : Controller :=
  { c with
    mState := restState c.nextPosition
    mPreviousInpinState := r
    mPreviousPosition := c.nextPosition
    mIdleCounter := 1
    pins := Pins.off
    cbCalls := c.cbCalls ++ [restState c.nextPosition, restState c.nextPosition] }

/-- A counted edge that does not end the move. -/
@[simps] def counted (r : UInt32) (c : Controller) : Controller :=
  { c with
    mState := { c.mState with position := c.nextPosition }
    mPreviousInpinState := r
    mPreviousPosition := c.nextPosition
    mIdleCounter := 1
    cbCalls := c.cbCalls ++ [{ c.mState with position := c.nextPosition }] }

/-- A tick without an edge before the idle threshold. -/
@[simps] def unmoved (c : Controller) : Controller :=
  { c with
    mPreviousPosition := c.mState.position
    mIdleCounter := c.mIdleCounter + 1
    cbCalls := c.cbCalls ++ [c.mState] }

/-- The idle timeout. -/
@[simps] def rested (c : Controller) : Controller :=
  { c with
    mState := restState (sanitized c.mState)
    mPreviousPosition := sanitized c.mState
    mInertMovement := .none
    mIdleCounter := c.mIdleCounter + 1
    pins := Pins.off
    timerRunning := false
    cbCalls := c.cbCalls ++ [restState (sanitized c.mState), restState (sanitized c.mState)] }

/-! ## What every reachable controller keeps -/

/-- The relation between the statics at the boundary of every event. While the motor is driven
the inert direction is the movement and the target lies ahead; the timer runs exactly while there
is an inert direction; and the idle counter cannot have grown before the first tick has copied
the boot position into `m_previous_position`. -/
structure Regular (c : Controller) : Prop where
  cb : c.mCb = true
  pins : c.pins = Pins.driving c.mState.movement
  driven : c.mState.movement ≠ .none →
    c.mInertMovement = c.mState.movement ∧ aim c.mState.target c.mState.position = c.mState.movement
  running : c.timerRunning = true ↔ c.mInertMovement ≠ .none
  idle : c.timerRunning = true → c.mIdleCounter ≤ ctrTimerTicksStopThreshold
  settled : c.mPreviousPosition = c.mState.position ∨ c.mIdleCounter = 0

theorem boot_regular (p : Int16) (r : UInt32) : (boot p r).Regular where
  cb := rfl
  pins := rfl
  driven h := absurd rfl h
  running := by simp [boot, controllerRegisterCb, controllerInit, controllerCallCb]
  idle h := by simp [boot, controllerRegisterCb, controllerInit, controllerCallCb] at h
  settled := .inr rfl

@[simp] theorem boot_mState (p : Int16) (r : UInt32) :
    (boot p r).mState = ⟨p, nilPosition, .none, .none⟩ := by
  simp [boot, controllerRegisterCb, controllerInit, controllerCallCb]

theorem stepPosition_ne {d : MoveDirection} (h : d ≠ .none) (p : Int16) : stepPosition d p ≠ p := by
  cases d with
  | up => simp only [stepPosition]; grind
  | down => simp only [stepPosition]; grind
  | none => exact absurd rfl h

/-- `Regular` for a move that `set_target_pos` starts or ends. -/
theorem Regular.aimed {c : Controller} (h : c.Regular) (t : Int16) (ty : TargetType) :
    (c.aimed t ty).Regular where
  cb := h.cb
  pins := rfl
  driven hd := by
    have hd' : aim t c.mState.position ≠ .none := hd
    exact ⟨if_neg hd', rfl⟩
  running := by
    simp only [aimed_timerRunning, aimed_mInertMovement]
    split_ifs with hd
    · exact h.running
    · simpa using hd
  idle hr := by
    simp only [aimed_timerRunning, aimed_mIdleCounter] at hr ⊢
    split_ifs at hr ⊢ with hd
    · exact h.idle hr
    · decide
  settled := by
    simp only [aimed_mPreviousPosition, aimed_mState_position, aimed_mIdleCounter]
    split_ifs with hd
    · exact h.settled
    · exact .inr rfl

end Controller

/-- The target a command sets, with its type; none if the command is ignored. -/
def Command.sets : Command → Option (Int16 × TargetType)
  | .stop => some (nilPosition, .none)
  | .target t => some (t, .exact)
  | .extremum e =>
      if e = Controller.ctrlExtremumPosBottom then some (Controller.bottomTarget, .extremumMin)
      else if e = Controller.ctrlExtremumPosTop then some (Controller.topTarget, .extremumMax)
      else none

namespace Controller

theorem command_of_sets_none {cmd : Command} (hcmd : cmd.sets = none) (c : Controller) :
    c.command cmd = c := by
  cases cmd with
  | stop => cases hcmd
  | target t => cases hcmd
  | extremum e =>
      simp only [Command.sets] at hcmd
      simp only [command, controllerExtremumPositionSet]
      split_ifs at hcmd ⊢
      rfl

theorem Regular.command_of_sets {c : Controller} (h : c.Regular) {cmd : Command} {t : Int16}
    {ty : TargetType} (hcmd : cmd.sets = some (t, ty)) : c.command cmd = c.aimed t ty := by
  rw [← setTargetPos_eq_aimed h.cb]
  cases cmd with
  | stop => cases hcmd; rfl
  | target t => cases hcmd; rfl
  | extremum e =>
      simp only [Command.sets] at hcmd
      simp only [command, controllerExtremumPositionSet]
      split_ifs at hcmd ⊢
      · cases hcmd; rfl
      · cases hcmd; rfl

/-- A command is ignored, or it sets a target. -/
theorem Regular.command_cases {c : Controller} (h : c.Regular) (cmd : Command) :
    c.command cmd = c ∨ ∃ t ty, c.command cmd = c.aimed t ty := by
  rcases hcmd : cmd.sets with _ | ⟨t, ty⟩
  · exact .inl (command_of_sets_none hcmd c)
  · exact .inr ⟨t, ty, h.command_of_sets hcmd⟩

/-- No command moves the counter. -/
theorem Regular.command_position {c : Controller} (h : c.Regular) (cmd : Command) :
    (c.command cmd).mState.position = c.mState.position := by
  rcases h.command_cases cmd with heq | ⟨t, ty, heq⟩
  · rw [heq]
  · rw [heq]
    rfl

/-! ## A tick -/

/-- The second half of a tick on which the counter has not moved, below the threshold. -/
theorem superviseIdle_of_lt {c : Controller} (hcb : c.mCb = true)
    (h : c.mPreviousPosition = c.mState.position)
    (hlt : ¬c.mIdleCounter ≥ ctrTimerTicksStopThreshold) :
    c.superviseIdle = c.unmoved := by
  unfold superviseIdle
  rw [if_neg (not_not.mpr h), if_neg hlt]
  exact controllerCallCb_of_mCb hcb

/-- The second half of a tick on which the counter has moved, or has had no tick to move on. -/
theorem superviseIdle_of_moved {c : Controller} (hcb : c.mCb = true)
    (h : c.mPreviousPosition ≠ c.mState.position ∨ c.mIdleCounter = 0) :
    c.superviseIdle = { c with
      mIdleCounter := 1
      mPreviousPosition := c.mState.position
      cbCalls := c.cbCalls ++ [c.mState] } := by
  by_cases hp : c.mPreviousPosition = c.mState.position
  · have hz : c.mIdleCounter = 0 := h.resolve_left (not_not.mpr hp)
    rw [superviseIdle_of_lt hcb hp (by rw [hz]; decide)]
    simp only [unmoved, hz]
    rfl
  · unfold superviseIdle
    rw [if_pos hp]
    exact controllerCallCb_of_mCb hcb

/-- The second half of a tick that is the idle timeout. -/
theorem superviseIdle_of_stalled {c : Controller} (hcb : c.mCb = true) (h : c.stalled) :
    c.superviseIdle = c.rested := by
  have hstop : c.idleTimeout =
      { ({ c with timerRunning := false }.setPosition (sanitized c.mState)).aimed nilPosition .none
        with mPreviousPosition := -10, mInertMovement := .none } := by
    unfold idleTimeout
    simp only [sanitizePosition_eq]
    rw [setTargetPos_eq_aimed (by exact hcb)]
  unfold superviseIdle
  rw [if_neg (not_not.mpr h.1), if_pos h.2, hstop]
  simp only
  rw [controllerCallCb_of_mCb (by exact hcb)]
  simp [aimed, rested, setPosition, restState, Pins.driving]

/-- A sampled edge that reaches the target. -/
theorem samplePin_of_passed {c : Controller} {r : UInt32} (hcb : c.mCb = true)
    (hr : r ≠ c.mPreviousInpinState)
    (hp : Passed c.mInertMovement c.mState.target c.nextPosition) :
    c.samplePin r = { c with
      mState := restState c.nextPosition
      mPreviousInpinState := r
      pins := Pins.off
      cbCalls := c.cbCalls ++ [restState c.nextPosition] } := by
  unfold samplePin
  rw [if_pos hr, updatePosition_eq, if_pos (by exact hp)]
  unfold controllerStop
  rw [setTargetPos_eq_aimed (by exact hcb)]
  simp only [aimed, aim_nil, if_true, setPosition]
  rfl

/-- A sampled edge that does not. -/
theorem samplePin_of_not_passed {c : Controller} {r : UInt32}
    (hr : r ≠ c.mPreviousInpinState)
    (hp : ¬Passed c.mInertMovement c.mState.target c.nextPosition) :
    c.samplePin r = { c with
      mState := { c.mState with position := c.nextPosition }
      mPreviousInpinState := r } := by
  unfold samplePin
  rw [if_pos hr, updatePosition_eq, if_neg (by exact hp)]
  rfl

theorem samplePin_of_eq (c : Controller) : c.samplePin c.mPreviousInpinState = c := by
  unfold samplePin
  rw [if_neg (not_not.mpr rfl)]

/-- A tick on which the reading has changed. -/
theorem Regular.tick_cases_of_ne {c : Controller} (h : c.Regular) (hrun : c.timerRunning = true)
    {r : UInt32} (hr : r ≠ c.mPreviousInpinState) :
    (Passed c.mInertMovement c.mState.target c.nextPosition ∧
      c.timerTimeoutHandler r = c.arrived r) ∨
    (¬Passed c.mInertMovement c.mState.target c.nextPosition ∧
      c.timerTimeoutHandler r = c.counted r) := by
  -- an edge moves the counter away from the previous tick's value, so the idle counter restarts
  have hmoved : c.mPreviousPosition ≠ c.nextPosition ∨ c.mIdleCounter = 0 := by
    rcases h.settled with hp | hz
    · left
      rw [hp]
      exact (stepPosition_ne (h.running.mp hrun) _).symm
    · exact .inr hz
  unfold timerTimeoutHandler
  by_cases hp : Passed c.mInertMovement c.mState.target c.nextPosition
  · refine .inl ⟨hp, ?_⟩
    rw [samplePin_of_passed h.cb hr hp, superviseIdle_of_moved (by exact h.cb) (by exact hmoved)]
    simp [arrived, restState]
  · refine .inr ⟨hp, ?_⟩
    rw [samplePin_of_not_passed hr hp, superviseIdle_of_moved (by exact h.cb) (by exact hmoved)]
    rfl

/-- A tick on which it has not. -/
theorem Regular.tick_cases_of_eq {c : Controller} (h : c.Regular) {r : UInt32}
    (hr : r = c.mPreviousInpinState) :
    (¬c.stalled ∧ c.timerTimeoutHandler r = c.unmoved) ∨
    (c.stalled ∧ c.timerTimeoutHandler r = c.rested) := by
  subst hr
  unfold timerTimeoutHandler
  rw [samplePin_of_eq]
  by_cases hs : c.stalled
  · exact .inr ⟨hs, superviseIdle_of_stalled h.cb hs⟩
  · refine .inl ⟨hs, ?_⟩
    rcases h.settled with hp | hz
    · exact superviseIdle_of_lt h.cb hp fun hi => hs ⟨hp, hi⟩
    · rw [superviseIdle_of_moved h.cb (.inr hz)]
      simp only [unmoved, hz]
      rfl

/-- **The inversion lemma of the timer tick.** With the timer running, a tick counts an edge and
arrives, counts an edge and goes on, sees no edge, or is the idle timeout; an edge and the idle
timeout exclude each other. -/
theorem Regular.tick_cases {c : Controller} (h : c.Regular) (hrun : c.timerRunning = true)
    (r : UInt32) :
    (r ≠ c.mPreviousInpinState ∧ Passed c.mInertMovement c.mState.target c.nextPosition ∧
      c.timerTimeoutHandler r = c.arrived r) ∨
    (r ≠ c.mPreviousInpinState ∧ ¬Passed c.mInertMovement c.mState.target c.nextPosition ∧
      c.timerTimeoutHandler r = c.counted r) ∨
    (r = c.mPreviousInpinState ∧ ¬c.stalled ∧ c.timerTimeoutHandler r = c.unmoved) ∨
    (r = c.mPreviousInpinState ∧ c.stalled ∧ c.timerTimeoutHandler r = c.rested) := by
  by_cases hr : r = c.mPreviousInpinState
  · rcases h.tick_cases_of_eq hr with ⟨hs, heq⟩ | ⟨hs, heq⟩
    · exact .inr (.inr (.inl ⟨hr, hs, heq⟩))
    · exact .inr (.inr (.inr ⟨hr, hs, heq⟩))
  · rcases h.tick_cases_of_ne hrun hr with ⟨hp, heq⟩ | ⟨hp, heq⟩
    · exact .inl ⟨hr, hp, heq⟩
    · exact .inr (.inl ⟨hr, hp, heq⟩)

/-- A tick remembers its reading. -/
theorem Regular.tick_mPreviousInpinState {c : Controller} (h : c.Regular)
    (hrun : c.timerRunning = true) (r : UInt32) :
    (c.timerTimeoutHandler r).mPreviousInpinState = r := by
  rcases h.tick_cases hrun r with ⟨-, -, heq⟩ | ⟨-, -, heq⟩ | ⟨hr, -, heq⟩ | ⟨hr, -, heq⟩
  · rw [heq]; rfl
  · rw [heq]; rfl
  · rw [heq]; exact hr.symm
  · rw [heq]; exact hr.symm

/-! ## `Regular` is an invariant -/

/-- A move that is still going stops exactly at its target, or keeps the target ahead. -/
theorem passed_or_aim {d : MoveDirection} {t p : Int16} (ha : aim t p = d) (hd : d ≠ .none) :
    (Passed d t (stepPosition d p) ∧ stepPosition d p = t) ∨
      (¬Passed d t (stepPosition d p) ∧ aim t (stepPosition d p) = d) := by
  cases d with
  | up =>
      rw [aim_eq_up] at ha ⊢
      simp only [Passed, stepPosition]
      grind
  | down =>
      rw [aim_eq_down] at ha ⊢
      simp only [Passed, stepPosition]
      grind
  | none => exact absurd rfl hd

theorem Regular.command {c : Controller} (h : c.Regular) (cmd : Command) :
    (c.command cmd).Regular := by
  rcases h.command_cases cmd with heq | ⟨t, ty, heq⟩
  · rwa [heq]
  · rw [heq]
    exact h.aimed t ty

theorem Regular.arrived {c : Controller} (h : c.Regular) (r : UInt32) : (c.arrived r).Regular where
  cb := h.cb
  pins := rfl
  driven hm := absurd rfl hm
  running := h.running
  idle _ := by rw [arrived_mIdleCounter]; decide
  settled := .inl rfl

theorem Regular.counted {c : Controller} (h : c.Regular) (r : UInt32)
    (hp : ¬Passed c.mInertMovement c.mState.target c.nextPosition) : (c.counted r).Regular where
  cb := h.cb
  pins := h.pins
  driven hm := by
    obtain ⟨hi, ha⟩ := h.driven hm
    unfold nextPosition at hp
    rw [hi] at hp
    refine ⟨hi, ?_⟩
    rcases passed_or_aim ha hm with ⟨hp', -⟩ | ⟨-, ha'⟩
    · exact absurd hp' hp
    · simp only [counted_mState_target, counted_mState_position, counted_mState_movement,
        nextPosition, hi]
      exact ha'
  running := h.running
  idle _ := by rw [counted_mIdleCounter]; decide
  settled := .inl rfl

theorem Regular.unmoved {c : Controller} (h : c.Regular) (hs : ¬c.stalled) : c.unmoved.Regular where
  cb := h.cb
  pins := h.pins
  driven := h.driven
  running := h.running
  idle hrun := by
    have hle := h.idle hrun
    rw [unmoved_mIdleCounter]
    unfold stalled at hs
    rw [ctrTimerTicksStopThreshold_eq] at *
    rcases h.settled with hp | hz
    · grind
    · rw [hz]; decide
  settled := .inl rfl

theorem Regular.rested {c : Controller} (h : c.Regular) : c.rested.Regular where
  cb := h.cb
  pins := rfl
  driven hm := absurd rfl hm
  running := by simp [Controller.rested]
  idle hrun := by simp [Controller.rested] at hrun
  settled := .inl rfl

theorem Regular.tick {c : Controller} (h : c.Regular) (hrun : c.timerRunning = true) (r : UInt32) :
    (c.timerTimeoutHandler r).Regular := by
  rcases h.tick_cases hrun r with ⟨-, -, heq⟩ | ⟨-, hp, heq⟩ | ⟨-, hs, heq⟩ | ⟨-, -, heq⟩
  · rw [heq]; exact h.arrived r
  · rw [heq]; exact h.counted r hp
  · rw [heq]; exact h.unmoved hs
  · rw [heq]; exact h.rested

/-- A step of the controller machine, taken apart. -/
theorem step_eq_some {c c' : Controller} {e : CtrlEvent} :
    c.step e = some c' ↔
      (∃ cmd, e = .command cmd ∧ c' = c.command cmd) ∨
      ∃ r, e = .tick r ∧ c.timerRunning = true ∧ c' = c.timerTimeoutHandler r := by
  unfold step
  cases e with
  | command cmd =>
      constructor
      · rintro ⟨⟩
        exact .inl ⟨cmd, rfl, rfl⟩
      · rintro (⟨cmd', ⟨⟩, rfl⟩ | ⟨r, ⟨⟩, -⟩)
        rfl
  | tick r =>
      constructor
      · intro h
        rw [Option.ite_none_right_eq_some] at h
        obtain ⟨hrun, ⟨⟩⟩ := h
        exact .inr ⟨r, rfl, hrun, rfl⟩
      · rintro (⟨cmd, ⟨⟩, -⟩ | ⟨r', ⟨⟩, hrun, rfl⟩)
        exact if_pos hrun

theorem Regular.step {c c' : Controller} (h : c.Regular) {e : CtrlEvent}
    (hs : c.step e = some c') : c'.Regular := by
  rcases step_eq_some.mp hs with ⟨cmd, -, rfl⟩ | ⟨r, -, hrun, rfl⟩
  · exact h.command cmd
  · exact h.tick hrun r

end Controller

theorem controllerMachine_regular {c : Controller} (h : controllerMachine.Reachable c) :
    c.Regular := by
  refine h.invariant ?_ fun c e c' hc hs => hc.step hs
  rintro c ⟨p, r, rfl⟩
  exact Controller.boot_regular p r

end Acromegaly
