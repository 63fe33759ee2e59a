import Acromegaly.Model.App

/-!
# The main loop, access by access

`App.mainStep` takes a statement of the main loop at a time. Interrupts do not wait for the end of a
statement: `m45pe_write` copies the position out of `ctrl_state` byte by byte, with delays of 10 ms
around it, and `update_status_service` loads the fields of `ctrl_state` one after the other, tests
the connection handle and reads it again for the call. `App.access` takes one of these accesses at a
time, with what has been loaded so far kept in `Progress`.

The arguments of `status_characteristic_update` are loaded in the order in which they are written.
When the peer goes between the test of the handle and the call, `sd_ble_gatts_hvx` is called with
`BLE_CONN_HANDLE_INVALID`, which no statement on its own does. `notifyLog` has the call as it is made;
it is on no connection, so `sent` does not have it.
-/

namespace Acromegaly

open Found

namespace M45pe

/-! ## The pieces of `m45pe_write` -/

/-- Up to its first transfer. Source: `src/driver/m45pe_drv.c`, `m45pe_write` -/
def claim (d : M45pe) : M45pe :=
  { d with
    spiXferDone := false
    mTxBuf := (List.replicate txLength 0).set 0 writeEnabledCode }

/-- From the first transfer to the copy. Source: `src/driver/m45pe_drv.c`, `m45pe_write` -/
def sendWriteEnabled (key : UInt8) (d : M45pe) : M45pe :=
  let d := d.m45peTransferBlocking 1 0
  { d with mTxBuf := (d.mTxBuf.set 0 writePageCode).set 3 key }

/-- A byte of the copy. Source: `src/driver/m45pe_drv.c`, `m45pe_write` -/
def copyByte (i : ℕ) (b : UInt8) (d : M45pe) : M45pe := { d with mTxBuf := d.mTxBuf.set (4 + i) b }

/-- The `int16_t` in the transmit buffer, behind the code and the address. -/
def copied (d : M45pe) : Int16 := int16OfBytes (d.mTxBuf.getD 4 0) (d.mTxBuf.getD 5 0)

end M45pe

/-! ## Accesses -/

/-- How far the main loop is within its statement. -/
inductive Progress
  /-- It is about to begin it. -/
  | start
  /-- `m45pe_write`: `spi_xfer_done` was set and is cleared. -/
  | claimed
  /-- `m45pe_write`: the first transfer is over. -/
  | writeEnabled
  /-- `m45pe_write`: the low byte is copied. -/
  | copiedLow
  /-- `m45pe_write`: the high byte is copied as well. -/
  | copiedHigh
  /-- `update_status_service`: an argument is loaded. -/
  | loadedPosition (pos : Int16)
  | loadedTarget (pos target : Int16)
  | loadedType (pos target : Int16) (targetType : UInt8)
  /-- `status_characteristic_update` is called. -/
  | called (pos target : Int16) (targetType mov : UInt8)
  /-- `status_characteristic_update`: `conn_handle` was valid. -/
  | composed (pos target : Int16) (targetType mov : UInt8)
  deriving DecidableEq, Repr

/-- The call, if it is on a connection. -/
def HvxParams.onConnection (hvx : HvxParams) : Option HvxParams :=
  if hvx.connHandle = bleConnHandleInvalid then none else some hvx

/-- The status update without a call on no connection. -/
def StatusUpdate.onConnection (u : StatusUpdate) : StatusUpdate :=
  { u with hvx := u.hvx.bind HvxParams.onConnection }

namespace App

/-- The next access of the main loop. Source: `main.c`, `main` -/
def access (g : Geometry) (a : App) : Progress → App × Progress
  | .start =>
      match a.phase with
      | .flashWrite =>
          if a.m45pe.spiXferDone = false then
            ({ a with
              flashLog := a.flashLog ++ [a.ctrlState.position]
              phase := .statusUpdate }, .start)
          else ({ a with m45pe := a.m45pe.claim }, .claimed)
      | .statusUpdate => (a, .loadedPosition a.ctrlState.position)
      | .test | .clearFlag | .powerManage => (a.mainStep g, .start)
  | .claimed => ({ a with m45pe := a.m45pe.sendWriteEnabled flashCtrlPosKey }, .writeEnabled)
  | .writeEnabled =>
      ({ a with m45pe := a.m45pe.copyByte 0 (lowByte a.ctrlState.position) }, .copiedLow)
  | .copiedLow =>
      ({ a with m45pe := a.m45pe.copyByte 1 (highByte a.ctrlState.position) }, .copiedHigh)
  | .copiedHigh =>
      ({ a with
        m45pe := a.m45pe.m45peTransferBlocking 6 0
        flashLog := a.flashLog ++ [a.m45pe.copied]
        phase := .statusUpdate }, .start)
  | .loadedPosition pos => (a, .loadedTarget pos a.ctrlState.target)
  | .loadedTarget pos target => (a, .loadedType pos target a.ctrlState.targetType.toByte)
  | .loadedType pos target targetType =>
      (a, .called pos target targetType a.ctrlState.movement.toByte)
  | .called pos target targetType mov =>
      if a.mStatusService.connHandle ≠ bleConnHandleInvalid then
        (a, .composed pos target targetType mov)
      else
        ({ a with
          notifyLog := a.notifyLog ++ [⟨a.mConnHandle, a.ctrlState, none⟩]
          phase := .clearFlag }, .start)
  | .composed pos target targetType mov =>
      let hvx : HvxParams :=
        { connHandle := a.mStatusService.connHandle
          handle := a.mStatusService.valueHandle
          data := statusValue g pos target targetType mov }
      ({ a with
        sent := a.sent ++ hvx.onConnection.toList
        notifyLog := a.notifyLog ++ [⟨a.mConnHandle, a.ctrlState, some hvx⟩]
        phase := .clearFlag }, .start)

variable {g : Geometry} {a : App}

theorem access_flashWrite (h : a.phase = .flashWrite) :
    a.access g .start =
      if a.m45pe.spiXferDone = false then
        ({ a with
          flashLog := a.flashLog ++ [a.ctrlState.position]
          phase := .statusUpdate }, .start)
      else ({ a with m45pe := a.m45pe.claim }, .claimed) := by
  simp only [access, h]

theorem access_statusUpdate (h : a.phase = .statusUpdate) :
    a.access g .start = (a, .loadedPosition a.ctrlState.position) := by
  simp only [access, h]

/-- A statement of one access. -/
theorem access_single (h : a.phase ≠ .flashWrite ∧ a.phase ≠ .statusUpdate) :
    a.access g .start = (a.mainStep g, .start) := by
  unfold access
  cases hphase : a.phase with
  | flashWrite => exact absurd hphase h.1
  | statusUpdate => exact absurd hphase h.2
  | test => rfl
  | clearFlag => rfl
  | powerManage => rfl

end App

end Acromegaly
