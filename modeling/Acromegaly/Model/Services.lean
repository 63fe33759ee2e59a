import Acromegaly.Found.TwosComplement
import Acromegaly.Model.Controller

/-!
# The two BLE services

* The control service (`src/service/ctrl_service.c`) turns a write on its characteristic into a
  command. The event carries a handle, a length and a pointer to data; `WriteEvt.data` is the
  memory behind that pointer, which does not end where the received bytes end.
* The status service (`src/service/status_service.c`) turns a controller state into the nine
  bytes of a notification and hands them to the SoftDevice if a peer is connected. What is handed
  over is the value `HvxParams`. What the SoftDevice makes of a call is not modelled, and the code
  does not ask.

Both use the geometry. The registration of services and characteristics with the SoftDevice is
left out, except that it yields the attribute handles.
-/

namespace Acromegaly

open Found

/-! ## Control service -/

/-- `CTRL_COMMAND_FORCE_STOP`. Source: `src/service/ctrl_service.c` -/
def ctrlCommandForceStop : UInt8 := 0xAA

/-- `CTRL_COMMAND_SET_TARGET_POS`. Source: `src/service/ctrl_service.c` -/
def ctrlCommandSetTargetPos : UInt8 := 0x60

/-- `CTRL_COMMAND_RESET`. Source: `src/service/ctrl_service.c` -/
def ctrlCommandReset : UInt8 := 0x88

/-- `BLE_CONN_HANDLE_INVALID` of the SoftDevice headers. -/
def bleConnHandleInvalid : UInt16 := 0xFFFF

/-- `ble_ctrl_service_t`, as far as it is used. Source: `src/service/ctrl_service.h` -/
structure CtrlService where
  connHandle : UInt16
  /-- `char_handles.value_handle`. -/
  valueHandle : UInt16
  deriving DecidableEq, Repr

/-- The SoftDevice's write event. -/
structure WriteEvt where
  handle : UInt16
  len : UInt16
  /-- The memory behind the event's data pointer; only the first `len` bytes were received. -/
  data : ℕ → UInt8

/-- The write event for received bytes, followed by zeros. -/
def WriteEvt.ofBytes (handle : UInt16) (bytes : List UInt8) : WriteEvt where
  handle := handle
  len := UInt16.ofNat bytes.length
  data i := bytes.getD i 0

/-- The tick target computed for a height in mm: `ROUNDED_DIV(targetMm * 1000 - BASE_HEIGHT,
TICK_TO_HEIGHT_MULTI)`, narrowed to `int16_t`.
Source: `src/service/ctrl_service.c`, `ble_ctrl_service_on_cmd_set_target_pos` -/
def targetPosOfMm (g : Geometry) (targetMm : Int16) : Int16 :=
  let targetUm : Int32 := targetMm.toInt32 * 1000
  (roundedDiv (targetUm - g.baseHeight) g.tickToHeightMulti).toInt16

/-- `ble_ctrl_service_on_cmd_set_target_pos`, with the memory its argument points to.
Source: `src/service/ctrl_service.c` -/
def bleCtrlServiceOnCmdSetTargetPos (g : Geometry) (target : ℕ → UInt8) (c : Controller) :
    Controller :=
  let targetMm := int16OfBytes (target 0) (target 1)
  c.controllerTargetPositionSet (targetPosOfMm g targetMm)

/-- `ble_ctrl_service_on_write`. The reset case falls through to an empty default.
Source: `src/service/ctrl_service.c` -/
def bleCtrlServiceOnWrite (g : Geometry) (svc : CtrlService) (e : WriteEvt) (c : Controller) :
    Controller :=
  if e.handle = svc.valueHandle ∧ e.len > 0 then
    if e.data 0 = ctrlCommandForceStop then c.controllerStop
    else if e.data 0 = ctrlCommandSetTargetPos then
      bleCtrlServiceOnCmdSetTargetPos g (fun i => e.data (1 + i)) c
    else if e.data 0 = ctrlCommandReset then c.controllerExtremumPositionSet (e.data 1)
    else c
  else c

/-- A BLE event, as far as the application looks at it. -/
inductive BleEvt
  | connected (connHandle : UInt16)
  | disconnected
  | write (e : WriteEvt)
  | other

/-- `ble_ctrl_service_on_ble_evt`. Source: `src/service/ctrl_service.c` -/
def bleCtrlServiceOnBleEvt (g : Geometry) (evt : BleEvt) (svc : CtrlService) (c : Controller) :
    CtrlService × Controller :=
  match evt with
  | .connected connHandle => ({ svc with connHandle := connHandle }, c)
  | .disconnected => ({ svc with connHandle := bleConnHandleInvalid }, c)
  | .write e => (svc, bleCtrlServiceOnWrite g svc e c)
  | .other => (svc, c)

/-! ### Writes as commands -/

/-- The command a write amounts to, if any. -/
def WriteEvt.command? (g : Geometry) (svc : CtrlService) (e : WriteEvt) : Option Command :=
  if e.handle = svc.valueHandle ∧ e.len > 0 then
    if e.data 0 = ctrlCommandForceStop then some .stop
    else if e.data 0 = ctrlCommandSetTargetPos then
      some (.target (targetPosOfMm g (int16OfBytes (e.data 1) (e.data 2))))
    else if e.data 0 = ctrlCommandReset then some (.extremum (e.data 1))
    else none
  else none

/-- A write carries out its command and is otherwise ignored. -/
theorem bleCtrlServiceOnWrite_eq (g : Geometry) (svc : CtrlService) (e : WriteEvt)
    (c : Controller) :
    bleCtrlServiceOnWrite g svc e c =
      match e.command? g svc with
      | some cmd => c.command cmd
      | none => c := by
  unfold bleCtrlServiceOnWrite WriteEvt.command?
  split_ifs <;> rfl

/-! ## Status service -/

/-- `STATUS_CHAR_LENGTH`. Source: `src/service/status_service.c` -/
def statusCharLength : ℕ := 9

/-- `ble_status_service_t`, as far as it is used. Source: `src/service/status_service.h` -/
structure StatusService where
  connHandle : UInt16
  /-- `char_handles.value_handle`. -/
  valueHandle : UInt16
  deriving DecidableEq, Repr

/-- The arguments of one call of `sd_ble_gatts_hvx`: the connection, the attribute and the
bytes. -/
structure HvxParams where
  connHandle : UInt16
  handle : UInt16
  data : List UInt8
  deriving DecidableEq, Repr

/-- `umPosition`. Source: `src/service/status_service.c`, `status_characteristic_update` -/
def umPosition (g : Geometry) (pos : Int16) : Int32 :=
  pos.toInt32 * g.tickToHeightMulti + g.baseHeight

/-- `umTarget`. Source: `src/service/status_service.c`, `status_characteristic_update` -/
def umTarget (g : Geometry) (target : Int16) : Int32 :=
  if target > 0 then target.toInt32 * g.tickToHeightMulti + g.baseHeight else 0

/-- `mmPosition`. Source: `src/service/status_service.c`, `status_characteristic_update` -/
def mmPosition (g : Geometry) (pos : Int16) : Int16 := (umPosition g pos / 1000).toInt16

/-- `mmTarget`. Source: `src/service/status_service.c`, `status_characteristic_update` -/
def mmTarget (g : Geometry) (target : Int16) : Int16 := (umTarget g target / 1000).toInt16

/-- The `value` array of `status_characteristic_update`.
Source: `src/service/status_service.c` -/
def statusValue (g : Geometry) (pos target : Int16) (targetType mov : UInt8) : List UInt8 :=
  [lowByte (mmPosition g pos), highByte (mmPosition g pos),
    lowByte (mmTarget g target), highByte (mmTarget g target), targetType, mov] ++
    List.replicate (statusCharLength - 6) 0

/-- `status_characteristic_update`: what it hands to `sd_ble_gatts_hvx`, if anything.
Source: `src/service/status_service.c` -/
def statusCharacteristicUpdate (g : Geometry) (svc : StatusService) (pos target : Int16)
    (targetType mov : UInt8) : Option HvxParams :=
  if svc.connHandle ≠ bleConnHandleInvalid then
    some
      { connHandle := svc.connHandle
        handle := svc.valueHandle
        data := statusValue g pos target targetType mov }
  else none

/-- `ble_status_service_on_ble_evt`. Source: `src/service/status_service.c` -/
def bleStatusServiceOnBleEvt (evt : BleEvt) (svc : StatusService) : StatusService :=
  match evt with
  | .connected connHandle => { svc with connHandle := connHandle }
  | .disconnected => { svc with connHandle := bleConnHandleInvalid }
  | .write _ => svc
  | .other => svc

end Acromegaly
