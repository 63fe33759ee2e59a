import Acromegaly.Found.Machine
import Acromegaly.Model.M45pe
import Acromegaly.Model.Services

/-!
# The application: the main loop and its mailbox

`main.c` copies the controller's state into the one-slot mailbox `ctrl_state`, guarded by
`ctrl_state_changed`. The main loop tests the flag, writes the position to flash, updates the
status characteristic and clears the flag. Callbacks and BLE events come from interrupts and may
fall between any two of these, so each is a step of its own (`LoopPhase`, `App.mainStep`).

`App` is this part of `main.c` on its own, for callbacks with arbitrary states (`appMachine`); the
whole firmware is in `Model.Firmware`. Besides the statics it keeps a history of what came in and
what went out, which no function reads. Advertising, bonding, connection parameters, the LEDs and
the log are left out.
-/

namespace Acromegaly

open Found

/-- Where the main loop stands. Source: `main.c`, `main` -/
inductive LoopPhase
  /-- `if (ctrl_state_changed == 0x01)` -/
  | test
  /-- `m45pe_write(FLASH_CTRL_POS_KEY, ...)` -/
  | flashWrite
  /-- `update_status_service()` -/
  | statusUpdate
  /-- `ctrl_state_changed = 0x00` -/
  | clearFlag
  /-- `power_manage()` -/
  | powerManage
  deriving DecidableEq, Repr

/-- The main loop is inside the body of its `if`. -/
def LoopPhase.InBody : LoopPhase → Prop
  | .flashWrite | .statusUpdate | .clearFlag => True
  | .test | .powerManage => False

/-- `FLASH_CTRL_POS_KEY`. Source: `src/driver/m45pe_keys.h` -/
def flashCtrlPosKey : UInt8 := 0x08

/-- The bytes of an `int16_t` in memory. -/
def int16Bytes (x : Int16) : List UInt8 := [lowByte x, highByte x]

/-- The `int16_t` the chip holds at `FLASH_CTRL_POS_KEY`. -/
def M45peChip.position (chip : M45peChip) : Int16 :=
  int16OfBytes (chip.mem flashCtrlPosKey.toNat) (chip.mem (flashCtrlPosKey.toNat + 1))

/-- A status update of the main loop, for the history. -/
structure StatusUpdate where
  /-- `m_conn_handle` at that moment. -/
  connHandle : UInt16
  /-- `ctrl_state` at that moment. -/
  state : ControllerState
  /-- The call of `sd_ble_gatts_hvx`, if it was made. -/
  hvx : Option HvxParams
  deriving DecidableEq, Repr

/-- The statics of `main.c` that the main loop, the callback and the BLE handlers share, with the
flash behind them. -/
structure App where
  ctrlState : ControllerState
  ctrlStateChanged : UInt8
  mConnHandle : UInt16
  mStatusService : StatusService
  m45pe : M45pe
  phase : LoopPhase
  /-- History: what was handed to `sd_ble_gatts_hvx` on the current connection, oldest first. -/
  sent : List HvxParams
  /-- History: the arguments of all calls of `controller_cb`. -/
  callbacks : List ControllerState
  /-- History: the positions the main loop has handed to `m45pe_write`. -/
  flashLog : List Int16
  /-- History: the status updates of the main loop. -/
  notifyLog : List StatusUpdate

namespace App

/-- `controller_cb`. Source: `main.c` -/
def controllerCb (state : ControllerState) (a : App) : App :=
  let a := { a with callbacks := a.callbacks ++ [state] }
  if a.ctrlStateChanged = 0x00 then { a with ctrlState := state, ctrlStateChanged := 0x01 }
  else a

/-- What `update_status_service` hands to `sd_ble_gatts_hvx`.
Source: `main.c`, `update_status_service` -/
def statusHvx (g : Geometry) (a : App) : Option HvxParams :=
  statusCharacteristicUpdate g a.mStatusService a.ctrlState.position a.ctrlState.target
    a.ctrlState.targetType.toByte a.ctrlState.movement.toByte

/-- `update_status_service`. Source: `main.c` -/
def updateStatusService (g : Geometry) (a : App) : App :=
  { a with sent := a.sent ++ (a.statusHvx g).toList }

/-- The next step of the main loop. Source: `main.c`, `main` -/
def mainStep (g : Geometry) (a : App) : App :=
  match a.phase with
  | .test => { a with phase := if a.ctrlStateChanged = 0x01 then .flashWrite else .powerManage }
  | .flashWrite => { a with
      m45pe := a.m45pe.m45peWrite flashCtrlPosKey (int16Bytes a.ctrlState.position)
      flashLog := a.flashLog ++ [a.ctrlState.position]
      phase := .statusUpdate }
  | .statusUpdate => { a.updateStatusService g with
      notifyLog := a.notifyLog ++ [⟨a.mConnHandle, a.ctrlState, a.statusHvx g⟩]
      phase := .clearFlag }
  | .clearFlag => { a with ctrlStateChanged := 0x00, phase := .powerManage }
  | .powerManage => { a with phase := .test }

/-- `on_ble_evt`; a connection starts a new history of notifications. Source: `main.c` -/
def onBleEvt (g : Geometry) (evt : BleEvt) (a : App) : App :=
  match evt with
  | .connected connHandle => { a with mConnHandle := connHandle, sent := [] }.updateStatusService g
  | .disconnected => { a with mConnHandle := bleConnHandleInvalid, sent := [] }
  | .write _ => a
  | .other => a

/-- `ble_evt_dispatch`, as far as it reaches the status service and `on_ble_evt`.
Source: `main.c` -/
def bleEvtDispatch (g : Geometry) (evt : BleEvt) (a : App) : App :=
  { a with mStatusService := bleStatusServiceOnBleEvt evt a.mStatusService }.onBleEvt g evt

/-- The statics after `services_init`, with the flash driver as `system_init` leaves it. The slot
is zero in C and is overwritten before anything reads it.
Source: `main.c`, `main` -/
def beforeInitFinished (d : M45pe) (valueHandle : UInt16) : App where
  ctrlState := ⟨0, 0, .none, .none⟩
  ctrlStateChanged := 0x00
  mConnHandle := bleConnHandleInvalid
  mStatusService := { connHandle := bleConnHandleInvalid, valueHandle := valueHandle }
  m45pe := d
  phase := .test
  sent := []
  callbacks := []
  flashLog := []
  notifyLog := []

end App

/-- What can happen to the application: a step of the main loop, a callback, a BLE event. -/
inductive AppEvent
  | mainStep
  | callback (state : ControllerState)
  | ble (evt : BleEvt)

/-- One event. -/
def App.step (g : Geometry) (a : App) : AppEvent → App
  | .mainStep => a.mainStep g
  | .callback state => a.controllerCb state
  | .ble evt => a.bleEvtDispatch g evt

/-- The application's runs from `on_init_finished` on, whose callback is the first, with any flash
content. -/
def appMachine (g : Geometry) : Machine App AppEvent where
  init a := ∃ (d : M45pe) (valueHandle : UInt16) (state : ControllerState), d.spiXferDone = true ∧
    a = (App.beforeInitFinished d valueHandle).controllerCb state
  step a e := some (a.step g e)

end Acromegaly
