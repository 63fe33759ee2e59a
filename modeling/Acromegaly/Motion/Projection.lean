import Acromegaly.Found.Lockstep
import Acromegaly.Motion.Parts

/-!
# Motion does not depend on the rest

The controller runs inside the firmware as it would run alone on the ticks and the commands among
the firmware's events (`controller_run`). How the main loop's steps, connects, disconnects and
writes without a command fall between them has no influence on the motor, on the counter or on
which ticks can occur.
-/

namespace Acromegaly

open Found

/-- The control characteristic is recognised by its value handle only. -/
theorem WriteEvt.command?_of_valueHandle {svc svc' : CtrlService}
    (h : svc.valueHandle = svc'.valueHandle) (g : Geometry) (e : WriteEvt) :
    e.command? g svc = e.command? g svc' := by
  unfold command?
  rw [h]

/-- What an event of the firmware is to the controller, if anything, when `valueHandle` is the
handle of the control characteristic. -/
def FirmwareEvent.ctrlEvent (g : Geometry) (valueHandle : UInt16) :
    FirmwareEvent → Option CtrlEvent
  | .tick inPinState => some (.tick inPinState)
  | .ble (.write e) => (e.command? g ⟨bleConnHandleInvalid, valueHandle⟩).map .command
  | _ => none

namespace Firmware

variable {g : Geometry}

/-- No event changes the handle. -/
theorem valueHandle_step {w w' : Firmware} {e : FirmwareEvent}
    (hstep : (firmwareMachine g).step w e = some w') :
    w'.mCtrlService.valueHandle = w.mCtrlService.valueHandle := by
  cases e with
  | mainStep =>
      cases hstep
      rfl
  | tick r =>
      obtain ⟨-, rfl⟩ := (step_tick_eq_some g).mp hstep
      rfl
  | ble evt =>
      cases hstep
      cases evt <;> rfl

/-- The controller's successor under an event of the firmware. -/
theorem map_controller_step (w : Firmware) (e : FirmwareEvent) :
    ((firmwareMachine g).step w e).map controller =
      (e.ctrlEvent g w.mCtrlService.valueHandle).elim (some w.controller)
        (controllerMachine.step w.controller) := by
  cases e with
  | mainStep => rfl
  | tick r =>
      show (if w.controller.timerRunning then
        some (w.deliver (w.controller.timerTimeoutHandler r)) else none).map controller =
          if w.controller.timerRunning then some (w.controller.timerTimeoutHandler r) else none
      split_ifs
      · rfl
      · rfl
  | ble evt =>
      cases evt with
      | connected connHandle => rfl
      | disconnected => rfl
      | other => rfl
      | write we =>
          have hhandle : we.command? g w.mCtrlService =
              we.command? g ⟨bleConnHandleInvalid, w.mCtrlService.valueHandle⟩ :=
            WriteEvt.command?_of_valueHandle rfl g we
          show some (bleCtrlServiceOnWrite g w.mCtrlService we w.controller) =
            ((we.command? g _).map CtrlEvent.command).elim _ _
          rw [bleCtrlServiceOnWrite_eq, hhandle]
          cases we.command? g ⟨bleConnHandleInvalid, w.mCtrlService.valueHandle⟩ with
          | none => rfl
          | some cmd => rfl

variable (g) in
/-- The controller is a part of the firmware. -/
def controllerShare (valueHandle : UInt16) :
    Machine.Projection (firmwareMachine g) controllerMachine where
  inv w := w.mCtrlService.valueHandle = valueHandle
  state := controller
  event := FirmwareEvent.ctrlEvent g valueHandle
  preserved := by
    intro w e w' h hstep
    rw [valueHandle_step hstep, h]
  step := by
    rintro w e rfl
    exact map_controller_step w e

/-- **Motion does not depend on the rest.** In every state and for every list of events: the
firmware can run through them exactly if the controller alone can run through the ticks and
commands among them, and it then leaves the same controller behind, with the same counter, pins,
timer and reports. -/
theorem controller_run (w : Firmware) (es : List FirmwareEvent) :
    ((firmwareMachine g).run w es).map controller =
      controllerMachine.run w.controller
        (es.filterMap (FirmwareEvent.ctrlEvent g w.mCtrlService.valueHandle)) :=
  (controllerShare g _).map_run rfl es

end Firmware

end Acromegaly
