import Acromegaly.Model.App
import Acromegaly.Model.Controller

/-!
# The firmware

The controller, the control service and the application together, as `main` connects them. There
are three sources of events: the main loop takes a step, the controller's timer ticks, and the
SoftDevice dispatches a BLE event. The two handlers run to completion between two steps of the
main loop; every call of `m_cb` they make is a call of `controller_cb` (`Firmware.deliver`).
-/

namespace Acromegaly

open Found

/-- The whole state. -/
structure Firmware where
  controller : Controller
  app : App
  mCtrlService : CtrlService
  /-- History: since the controller's state last changed, some handler that reported it has found
  `ctrl_state_changed` clear. -/
  caughtUp : Bool

namespace Firmware

/-- A handler has taken the controller to `c`: its calls of `m_cb` reach `controller_cb`, in
order. -/
def deliver (c : Controller) (w : Firmware) : Firmware :=
  let calls := c.cbCalls.drop w.controller.cbCalls.length
  { w with
    controller := c
    app := calls.foldl (fun a state => a.controllerCb state) w.app
    caughtUp :=
      if calls ≠ [] ∧ w.app.ctrlStateChanged = 0x00 then true
      else w.caughtUp && decide (c.mState = w.controller.mState) }

/-- `system_init`: the position is read from flash. Source: `main.c` -/
def systemInit (inPinState : UInt32) (d : M45pe) : M45pe × Controller :=
  let (d, tmp) := d.m45peRead flashCtrlPosKey (int16Bytes 0)
  (d, .controllerInit (int16OfBytes (tmp.getD 0 0) (tmp.getD 1 0)).toInt32 inPinState)

/-- `main` up to its loop: `m45_init`, `system_init`, `services_init` and `on_init_finished`. The
two handles are those the SoftDevice has assigned to the characteristics. Source: `main.c` -/
def boot (chip : M45peChip) (inPinState : UInt32) (ctrlHandle statusHandle : UInt16) : Firmware :=
  let (d, c) := systemInit inPinState (M45pe.powerUp chip).m45Init
  let w : Firmware :=
    { controller := c
      app := .beforeInitFinished d statusHandle
      mCtrlService := { connHandle := bleConnHandleInvalid, valueHandle := ctrlHandle }
      caughtUp := false }
  w.deliver c.controllerRegisterCb

/-- `ble_evt_dispatch`: the control service, the status service and `on_ble_evt`.
Source: `main.c` -/
def bleEvtDispatch (g : Geometry) (evt : BleEvt) (w : Firmware) : Firmware :=
  let (svc, c) := bleCtrlServiceOnBleEvt g evt w.mCtrlService w.controller
  let w := { w with mCtrlService := svc }.deliver c
  { w with app := w.app.bleEvtDispatch g evt }

end Firmware

/-- What can happen to the firmware. -/
inductive FirmwareEvent
  /-- A step of the main loop. -/
  | mainStep
  /-- A tick of the controller's timer, with the level of the input pin. -/
  | tick (inPinState : UInt32)
  | ble (evt : BleEvt)

/-- One event. A tick needs a running timer. -/
def Firmware.step (g : Geometry) (w : Firmware) : FirmwareEvent → Option Firmware
  | .mainStep => some { w with app := w.app.mainStep g }
  | .tick inPinState =>
      if w.controller.timerRunning then
        some (w.deliver (w.controller.timerTimeoutHandler inPinState))
      else none
  | .ble evt => some (w.bleEvtDispatch g evt)

/-- The firmware's runs from boot, with any flash content and any first reading of the pin. -/
def firmwareMachine (g : Geometry) : Machine Firmware FirmwareEvent where
  init w := ∃ chip inPinState ctrlHandle statusHandle,
    w = Firmware.boot chip inPinState ctrlHandle statusHandle
  step := Firmware.step g

namespace Firmware

/-! ## Boot -/

/-- `system_init` hands the controller the position in flash and leaves the driver ready. -/
theorem systemInit_eq {d : M45pe} (h : d.spiXferDone = true) (inPinState : UInt32) :
    (systemInit inPinState d).1.spiXferDone = true ∧ (systemInit inPinState d).1.chip = d.chip ∧
      (systemInit inPinState d).2 = .controllerInit d.chip.position.toInt32 inPinState := by
  obtain ⟨hdone, hchip, hval⟩ := M45pe.m45peRead_of_done h flashCtrlPosKey
    (show (int16Bytes 0).length ≤ 8 by decide)
  refine ⟨hdone, hchip, ?_⟩
  unfold systemInit
  simp only [hval]
  rfl

/-- The controller that boots is the one of the controller's own runs. -/
theorem boot_controller (chip : M45peChip) (inPinState : UInt32) (ctrlHandle statusHandle : UInt16) :
    (boot chip inPinState ctrlHandle statusHandle).controller =
      Controller.boot chip.position inPinState := by
  have h := (systemInit_eq (d := (M45pe.powerUp chip).m45Init) rfl inPinState).2.2
  show (systemInit inPinState (M45pe.powerUp chip).m45Init).2.controllerRegisterCb = _
  rw [h]
  rfl

/-- A boot at position `0`, with the handles `7` and `14` for the two characteristics. -/
def bootAtZero : Firmware := boot ⟨fun _ => 0, false, fun _ => 0⟩ 0 7 14

end Firmware

end Acromegaly
