import Acromegaly.Found.Machine
import Acromegaly.Model.Config

/-!
# The motor controller

A translation of `src/mod/controller.c`. The file's statics are the fields of `Controller`; each
C function is a function on `Controller` under its own name.

* The three motor pins are `Pins`. `setMovementDir` drives them through an explicit list of single
  writes, `motorWrites`, so that the levels between two writes can be spoken about.
* The SDK's repeated timer is the one flag `timerRunning`: `app_timer_start` and `app_timer_stop`
  take effect at once, and starting a running timer changes nothing.
* `m_cb` is called with a copy of `m_state`. The calls made so far are recorded, oldest first, in
  `cbCalls`; no function of the controller reads that record, and `main.c`'s callback never calls
  back into the controller.
* `USE_TICK_GENERATOR` is `false` in the configuration header, so the tick generator is not part
  of the build. Log output is left out.

`controllerMachine` takes as events the commands of the controller's header and the ticks of its
timer. A tick carries the level read from the input pin and can only occur while the timer runs.
-/

namespace Acromegaly

open Found

/-! ## State -/

/-- `MOVE_DIRECTION_UP`, `MOVE_DIRECTION_DOWN` and `MOVE_DIRECTION_NONE`.
Source: `src/mod/controller.h` -/
inductive MoveDirection
  | up
  | down
  | none
  deriving DecidableEq, Repr, Inhabited

/-- The byte a direction is sent as. Source: `src/mod/controller.h` -/
def MoveDirection.toByte : MoveDirection → UInt8
  | .up => 0xCB
  | .down => 0x92
  | .none => 0xA1

/-- The `CTRL_TARGET_TYPE_*` flags. Source: `src/mod/controller.h` -/
inductive TargetType
  | none
  | exact
  | extremumMin
  | extremumMax
  deriving DecidableEq, Repr, Inhabited

/-- The byte a target type is sent as: `1<<0` to `1<<3`. Source: `src/mod/controller.h` -/
def TargetType.toByte : TargetType → UInt8
  | .none => 1
  | .exact => 2
  | .extremumMin => 4
  | .extremumMax => 8

/-- `controller_state_t`. Source: `src/mod/controller.h` -/
structure ControllerState where
  position : Int16
  target : Int16
  movement : MoveDirection
  targetType : TargetType
  deriving DecidableEq, Repr, Inhabited

/-- `NIL_POSITION`, which marks the target as unset. Source: `src/mod/controller.c` -/
def nilPosition : Int16 := -1

/-- `APP_CTRL_TIMER_INTERVAL_MS`. Source: `src/mod/controller.c` -/
def appCtrlTimerIntervalMs : ℕ := 50

/-- `CTR_TIMER_TICKS_STOP_THRESHOLD`, `1200 / APP_CTRL_TIMER_INTERVAL_MS` in `int` arithmetic.
Source: `src/mod/controller.c` -/
def ctrTimerTicksStopThreshold : UInt8 := UInt8.ofNat (1200 / appCtrlTimerIntervalMs)

/-- `GPIO_MOTOR_UP_PIN`, `GPIO_MOTOR_DOWN_PIN` and `GPIO_MOTOR_ENABLED_PIN`.
Source: `src/mod/controller.c` -/
inductive MotorPin
  | up
  | down
  | enabled
  deriving DecidableEq, Repr

/-- The levels of the three motor pins. -/
structure Pins where
  up : Bool
  down : Bool
  enabled : Bool
  deriving DecidableEq, Repr

/-- One write of an output pin: `nrf_drv_gpiote_out_clear` or `nrf_drv_gpiote_out_set`. -/
inductive GpioWrite
  | clear (pin : MotorPin)
  | set (pin : MotorPin)
  deriving DecidableEq, Repr

/-- Drive one pin to a level. -/
def Pins.drive (p : Pins) (level : Bool) : MotorPin → Pins
  | .up => { p with up := level }
  | .down => { p with down := level }
  | .enabled => { p with enabled := level }

/-- The effect of one write. -/
def Pins.write (p : Pins) : GpioWrite → Pins
  | .clear pin => p.drive false pin
  | .set pin => p.drive true pin

/-- The levels after a sequence of writes. -/
def Pins.writeAll (p : Pins) (writes : List GpioWrite) : Pins := writes.foldl Pins.write p

/-- All three pins low. -/
def Pins.off : Pins := ⟨false, false, false⟩

/-- The statics of the controller, with the pins and the timer it drives.
Source: `src/mod/controller.c` -/
structure Controller where
  mState : ControllerState
  /-- Whether `m_cb` has been registered. -/
  mCb : Bool
  mPreviousInpinState : UInt32
  mPreviousPosition : Int16
  mInertMovement : MoveDirection
  mIdleCounter : UInt8
  pins : Pins
  timerRunning : Bool
  /-- The arguments `m_cb` has been called with, oldest first. -/
  cbCalls : List ControllerState
  deriving DecidableEq, Repr

namespace Controller

/-! ## The functions of `controller.c` -/

/-- The macro `controller_call_cb`. Source: `src/mod/controller.c` -/
def controllerCallCb (c : Controller) : Controller :=
  if c.mCb then { c with cbCalls := c.cbCalls ++ [c.mState] } else c

/-- The pin the `switch` of `set_movement_dir` stores in `motor`; `none` is `0x00`.
Source: `src/mod/controller.c`, `set_movement_dir` -/
def motorPin : MoveDirection → Option MotorPin
  | .down => some .down
  | .up => some .up
  | .none => none

/-- The single pin writes of `set_movement_dir`, in order.
Source: `src/mod/controller.c`, `set_movement_dir` -/
def motorWrites (direction : MoveDirection) : List GpioWrite :=
  [.clear .up, .clear .down, .clear .enabled] ++
    match motorPin direction with
    | some motor => [.set motor, .set .enabled]
    | none => []

/-- `set_movement_dir`. Source: `src/mod/controller.c` -/
def setMovementDir (direction : MoveDirection) (c : Controller) : Controller :=
  let c := { c with
    mState := { c.mState with movement := direction }
    pins := c.pins.writeAll (motorWrites direction) }
  let c :=
    match motorPin direction with
    | some _ => { c with mInertMovement := direction, mIdleCounter := 0, timerRunning := true }
    | none => c
  c.controllerCallCb

/-- `set_target_pos`. Source: `src/mod/controller.c` -/
def setTargetPos (target : Int16) (targetType : TargetType) (c : Controller) : Controller :=
  let c := { c with mState := { c.mState with target := target, targetType := targetType } }
  if target = nilPosition ∨ target = c.mState.position then
    c.setMovementDir .none
  else if target < c.mState.position then
    c.setMovementDir .down
  else if target > c.mState.position then
    c.setMovementDir .up
  else c

/-- `controller_stop`. Source: `src/mod/controller.c` -/
def controllerStop (c : Controller) : Controller := c.setTargetPos nilPosition .none

/-- Replace the counted position. -/
def setPosition (position : Int16) (c : Controller) : Controller :=
  { c with mState := { c.mState with position := position } }

/-- `update_position`. The counter runs in the direction last driven, `m_inert_movement`.
Source: `src/mod/controller.c` -/
def updatePosition (c : Controller) : Controller :=
  let stop := c.mState.target ≠ nilPosition
  match c.mInertMovement with
  | .down =>
      let c := c.setPosition (c.mState.position - 1)
      if stop ∧ c.mState.position ≤ c.mState.target then c.controllerStop else c
  | .up =>
      let c := c.setPosition (c.mState.position + 1)
      if stop ∧ c.mState.position ≥ c.mState.target then c.controllerStop else c
  | .none => c

/-- `sanitize_position`. Source: `src/mod/controller.c` -/
def sanitizePosition (c : Controller) : Controller :=
  if c.mState.position > ticksUpperLimit ∨ c.mState.targetType = .extremumMax then
    c.setPosition ticksUpperLimit
  else if c.mState.position < tickLowerLimit ∨ c.mState.targetType = .extremumMin then
    c.setPosition tickLowerLimit
  else c

/-- The first `if` of `timer_timeout_handler`: a changed input level is one counted tick.
Source: `src/mod/controller.c`, `timer_timeout_handler` -/
def samplePin (inPinState : UInt32) (c : Controller) : Controller :=
  if inPinState ≠ c.mPreviousInpinState then
    { c with mPreviousInpinState := inPinState }.updatePosition
  else c

/-- The test of the idle timeout, made after the pin has been sampled.
Source: `src/mod/controller.c`, `timer_timeout_handler` -/
def stalled (c : Controller) : Prop :=
  c.mPreviousPosition = c.mState.position ∧ c.mIdleCounter ≥ ctrTimerTicksStopThreshold

instance (c : Controller) : Decidable c.stalled := inferInstanceAs (Decidable (_ ∧ _))

/-- The body of the idle timeout.
Source: `src/mod/controller.c`, `timer_timeout_handler` -/
def idleTimeout (c : Controller) : Controller :=
  let c := { c with timerRunning := false }
  let c := c.sanitizePosition
  let c := c.setTargetPos nilPosition .none
  { c with mPreviousPosition := -10, mInertMovement := .none }

/-- The rest of `timer_timeout_handler`: the idle counter, the idle timeout and the callback.
Source: `src/mod/controller.c`, `timer_timeout_handler` -/
def superviseIdle (c : Controller) : Controller :=
  let c :=
    if c.mPreviousPosition ≠ c.mState.position then { c with mIdleCounter := 0 }
    else if c.mIdleCounter ≥ ctrTimerTicksStopThreshold then c.idleTimeout
    else c
  let c := { c with
    mIdleCounter := c.mIdleCounter + 1
    mPreviousPosition := c.mState.position }
  c.controllerCallCb

/-- `timer_timeout_handler`. Source: `src/mod/controller.c` -/
def timerTimeoutHandler (inPinState : UInt32) (c : Controller) : Controller :=
  (c.samplePin inPinState).superviseIdle

/-- `controller_init`, on the statics as C initialises them. `position` is an `int` narrowed to
`int16_t`; `inPinState` is the level of the input pin at boot.
Source: `src/mod/controller.c` -/
def controllerInit (position : Int32) (inPinState : UInt32) : Controller where
  mState :=
    { position := position.toInt16, target := nilPosition, movement := .none, targetType := .none }
  mCb := false
  mPreviousInpinState := inPinState
  mPreviousPosition := 0
  mInertMovement := .none
  mIdleCounter := 0
  pins := Pins.off
  timerRunning := false
  cbCalls := []

/-- `controller_register_cb`. Source: `src/mod/controller.c` -/
def controllerRegisterCb (c : Controller) : Controller :=
  { c with mCb := true }.controllerCallCb

/-- `CTRL_EXTREMUM_POS_BOTTOM`. Source: `src/mod/controller.h` -/
def ctrlExtremumPosBottom : UInt8 := 0xDD

/-- `CTRL_EXTREMUM_POS_TOP`. Source: `src/mod/controller.h` -/
def ctrlExtremumPosTop : UInt8 := 0xFF

/-- `-(int16_t)((uint16_t)~0 >> 1) - 1`.
Source: `src/mod/controller.c`, `controller_extremum_position_set` -/
def bottomTarget : Int16 := -32768

/-- `(int16_t)((uint16_t)~0 >> 1) - 1`.
Source: `src/mod/controller.c`, `controller_extremum_position_set` -/
def topTarget : Int16 := 32766

/-- `controller_extremum_position_set`. Source: `src/mod/controller.c` -/
def controllerExtremumPositionSet (extremum : UInt8) (c : Controller) : Controller :=
  if extremum = ctrlExtremumPosBottom then c.setTargetPos bottomTarget .extremumMin
  else if extremum = ctrlExtremumPosTop then c.setTargetPos topTarget .extremumMax
  else c

/-- `controller_target_position_set`. Source: `src/mod/controller.c` -/
def controllerTargetPositionSet (target : Int16) (c : Controller) : Controller :=
  c.setTargetPos target .exact

end Controller

/-! ## The controller as a machine -/

/-- The commands of the controller's header. Source: `src/mod/controller.h` -/
inductive Command
  | stop
  | target (target : Int16)
  | extremum (extremum : UInt8)
  deriving DecidableEq, Repr

/-- Carry out a command. -/
def Controller.command (cmd : Command) (c : Controller) : Controller :=
  match cmd with
  | .stop => c.controllerStop
  | .target target => c.controllerTargetPositionSet target
  | .extremum extremum => c.controllerExtremumPositionSet extremum

/-- What can happen to a controller: a command, or a tick of its timer with the level read from
the input pin. -/
inductive CtrlEvent
  | command (cmd : Command)
  | tick (inPinState : UInt32)
  deriving DecidableEq, Repr

/-- The controller as `main` leaves it: initialised at `position`, callback registered.
Source: `main.c`, `system_init`, `on_init_finished` -/
def Controller.boot (position : Int16) (inPinState : UInt32) : Controller :=
  (Controller.controllerInit position.toInt32 inPinState).controllerRegisterCb

/-- One event. A tick needs a running timer. -/
def Controller.step (c : Controller) : CtrlEvent → Option Controller
  | .command cmd => some (c.command cmd)
  | .tick inPinState => if c.timerRunning then some (c.timerTimeoutHandler inPinState) else none

/-- The controller's runs, from every boot position and every first reading of the pin. -/
def controllerMachine : Machine Controller CtrlEvent where
  init c := ∃ position inPinState, c = Controller.boot position inPinState
  step := Controller.step

end Acromegaly
