import Acromegaly.Found.Lockstep
import Acromegaly.Model.MainLoop
import Acromegaly.Publish.Persistence

/-!
# Interrupts within a statement

The runs of the firmware let a statement of the main loop go by undisturbed. A `Board` does not: its
main loop goes access by access, a handler can fall between any two of them, and the power can be
cut there. This file shows that no peer and no later life can tell (`linearizes`): every run of a
board is, up to the driver's own buffers, the chip's latch and calls of `sd_ble_gatts_hvx` on no
connection, a run of the device with the same interrupts and reboots in the same order. A flash write
takes place with its last transfer; a status update takes place with the call of `sd_ble_gatts_hvx`,
or with the test of the connection handle if that fails. The exception is a peer that goes between
this test and the call, which is then made all the same (`linearizes_hangUp`).

What carries it is the mailbox: while the main loop is inside the body of its `if` the flag is set,
so no handler changes `ctrl_state` under it. Hence what is written and what is notified is always
one callback's state, never parts of two (`published_whole`), and a power cut anywhere leaves a
position that was persisted as a whole (`cut_anywhere`).
-/

namespace Acromegaly

open Found

/-! ## Boards -/

/-- A device whose main loop is within a statement. -/
structure Board where
  device : Device
  progress : Progress

/-- The application is replaced. -/
def Device.withApp (a : App) (dev : Device) : Device :=
  { dev with firmware := { dev.firmware with app := a } }

/-- One event: the next access of the main loop, an interrupt or a reboot. -/
def Board.step (g : Geometry) (b : Board) : DeviceEvent → Option Board
  | .firmware .mainStep =>
      let (a, progress) := b.device.firmware.app.access g b.progress
      some ⟨b.device.withApp a, progress⟩
  | .firmware e => ((deviceMachine g).step b.device (.firmware e)).map fun dev => ⟨dev, b.progress⟩
  | .reboot latch floating inPinState ctrlHandle statusHandle =>
      ((deviceMachine g).step b.device
        (.reboot latch floating inPinState ctrlHandle statusHandle)).map fun dev => ⟨dev, .start⟩

/-- The board's runs, from its first boot on any chip. -/
def boardMachine (g : Geometry) : Machine Board DeviceEvent where
  init b := (deviceMachine g).init b.device ∧ b.progress = .start
  step := Board.step g

/-- The events that do not come from the main loop. -/
def DeviceEvent.interrupt : DeviceEvent → Option DeviceEvent
  | .firmware .mainStep => none
  | e => some e

/-! ## What an interrupt leaves alone -/

/-- The driver, the place of the main loop and its histories are as they were, and so is a full
mailbox. -/
structure App.Undisturbed (a a' : App) : Prop where
  m45pe : a'.m45pe = a.m45pe
  flashLog : a'.flashLog = a.flashLog
  notifyLog : a'.notifyLog = a.notifyLog
  valueHandle : a'.mStatusService.valueHandle = a.mStatusService.valueHandle
  phase : a'.phase = a.phase
  full : a.ctrlStateChanged ≠ 0x00 →
    a'.ctrlStateChanged = a.ctrlStateChanged ∧ a'.ctrlState = a.ctrlState

namespace App

theorem Undisturbed.trans {a b c : App} (h : a.Undisturbed b) (h' : b.Undisturbed c) :
    a.Undisturbed c where
  m45pe := h'.m45pe.trans h.m45pe
  flashLog := h'.flashLog.trans h.flashLog
  notifyLog := h'.notifyLog.trans h.notifyLog
  valueHandle := h'.valueHandle.trans h.valueHandle
  phase := h'.phase.trans h.phase
  full hfull := by
    obtain ⟨hflag, hstate⟩ := h.full hfull
    obtain ⟨hflag', hstate'⟩ := h'.full (by rwa [hflag])
    exact ⟨hflag'.trans hflag, hstate'.trans hstate⟩

theorem undisturbed_controllerCb (a : App) (st : ControllerState) :
    a.Undisturbed (a.controllerCb st) := by
  unfold controllerCb
  dsimp only
  split_ifs with hflag
  · exact ⟨rfl, rfl, rfl, rfl, rfl, fun hfull => absurd hflag hfull⟩
  · exact ⟨rfl, rfl, rfl, rfl, rfl, fun _ => ⟨rfl, rfl⟩⟩

theorem valueHandle_mainStep (g : Geometry) (a : App) :
    (a.mainStep g).mStatusService.valueHandle = a.mStatusService.valueHandle := by
  unfold mainStep
  split <;> rfl

/-- Only a status update is written down. -/
theorem notifyLog_mainStep (g : Geometry) {a : App} (h : a.phase ≠ .statusUpdate) :
    (a.mainStep g).notifyLog = a.notifyLog := by
  unfold mainStep
  cases hphase : a.phase with
  | statusUpdate => exact absurd hphase h
  | test => rfl
  | flashWrite => rfl
  | clearFlag => rfl
  | powerManage => rfl

theorem undisturbed_callbacks (a : App) (calls : List ControllerState) :
    a.Undisturbed (calls.foldl (fun a state => a.controllerCb state) a) := by
  induction calls generalizing a with
  | nil => exact ⟨rfl, rfl, rfl, rfl, rfl, fun _ => ⟨rfl, rfl⟩⟩
  | cons st calls ih => exact (undisturbed_controllerCb a st).trans (ih (a.controllerCb st))

theorem undisturbed_bleEvtDispatch (g : Geometry) (evt : BleEvt) (a : App) :
    a.Undisturbed (a.bleEvtDispatch g evt) := by
  cases evt with
  | connected connHandle => exact ⟨rfl, rfl, rfl, rfl, rfl, fun _ => ⟨rfl, rfl⟩⟩
  | disconnected => exact ⟨rfl, rfl, rfl, rfl, rfl, fun _ => ⟨rfl, rfl⟩⟩
  | write e => exact ⟨rfl, rfl, rfl, rfl, rfl, fun _ => ⟨rfl, rfl⟩⟩
  | other => exact ⟨rfl, rfl, rfl, rfl, rfl, fun _ => ⟨rfl, rfl⟩⟩

/-- What no handler looks at is replaced: the driver and the status updates there have been. -/
def withHidden (d : M45pe) (log : List StatusUpdate) (a : App) : App :=
  { a with m45pe := d, notifyLog := log }

theorem controllerCb_withHidden (a : App) (d : M45pe) (log : List StatusUpdate)
    (st : ControllerState) :
    (a.withHidden d log).controllerCb st = (a.controllerCb st).withHidden d log := by
  unfold controllerCb withHidden
  dsimp only
  split_ifs
  · rfl
  · rfl

theorem callbacks_withHidden (a : App) (d : M45pe) (log : List StatusUpdate)
    (calls : List ControllerState) :
    calls.foldl (fun a state => a.controllerCb state) (a.withHidden d log) =
      (calls.foldl (fun a state => a.controllerCb state) a).withHidden d log := by
  induction calls generalizing a with
  | nil => rfl
  | cons st calls ih =>
      rw [List.foldl_cons, List.foldl_cons, controllerCb_withHidden]
      exact ih (a.controllerCb st)

theorem bleEvtDispatch_withHidden (g : Geometry) (evt : BleEvt) (a : App) (d : M45pe)
    (log : List StatusUpdate) :
    (a.withHidden d log).bleEvtDispatch g evt = (a.bleEvtDispatch g evt).withHidden d log := by
  cases evt with
  | connected connHandle => rfl
  | disconnected => rfl
  | write e => rfl
  | other => rfl

end App

namespace Firmware

variable {g : Geometry}

/-- What no handler looks at is replaced. -/
def withHidden (d : M45pe) (log : List StatusUpdate) (w : Firmware) : Firmware :=
  { w with app := w.app.withHidden d log }

theorem deliver_withHidden (c : Controller) (w : Firmware) (d : M45pe) (log : List StatusUpdate) :
    (w.withHidden d log).deliver c = (w.deliver c).withHidden d log := by
  have hcalls := App.callbacks_withHidden w.app d log (c.cbCalls.drop w.controller.cbCalls.length)
  exact congrArg (fun a => { (w.deliver c).withHidden d log with app := a }) hcalls

/-- An interrupt does the same whatever that is. -/
theorem step_withHidden {e : FirmwareEvent} (he : e ≠ .mainStep) (w : Firmware) (d : M45pe)
    (log : List StatusUpdate) :
    (firmwareMachine g).step (w.withHidden d log) e =
      ((firmwareMachine g).step w e).map (withHidden d log) := by
  cases e with
  | mainStep => exact absurd rfl he
  | tick r =>
      show (if w.controller.timerRunning then
        some ((w.withHidden d log).deliver (w.controller.timerTimeoutHandler r)) else none) =
          Option.map _ (if w.controller.timerRunning then
            some (w.deliver (w.controller.timerTimeoutHandler r)) else none)
      rw [deliver_withHidden]
      split_ifs
      · rfl
      · rfl
  | ble evt =>
      let served := bleCtrlServiceOnBleEvt g evt w.mCtrlService w.controller
      have hdeliver := deliver_withHidden served.2 { w with mCtrlService := served.1 } d log
      show some (Firmware.mk _ (App.bleEvtDispatch g evt
        (deliver served.2 (withHidden d log { w with mCtrlService := served.1 })).app) _ _) = some _
      rw [hdeliver]
      show some (Firmware.mk _ (App.bleEvtDispatch g evt (App.withHidden d log _)) _ _) = _
      rw [App.bleEvtDispatch_withHidden]
      rfl

theorem undisturbed_step {e : FirmwareEvent} (he : e ≠ .mainStep) {w w' : Firmware}
    (hstep : (firmwareMachine g).step w e = some w') : w.app.Undisturbed w'.app := by
  cases e with
  | mainStep => exact absurd rfl he
  | tick r =>
      obtain ⟨-, rfl⟩ := (step_tick_eq_some g).mp hstep
      exact App.undisturbed_callbacks w.app _
  | ble evt =>
      cases hstep
      exact (App.undisturbed_callbacks w.app _).trans (App.undisturbed_bleEvtDispatch g evt _)

/-- No event changes the handle of the status characteristic. -/
theorem statusHandle_step {e : FirmwareEvent} {w w' : Firmware}
    (hstep : (firmwareMachine g).step w e = some w') :
    w'.app.mStatusService.valueHandle = w.app.mStatusService.valueHandle := by
  by_cases he : e = .mainStep
  · subst he
    cases hstep
    exact App.valueHandle_mainStep g w.app
  · exact (undisturbed_step he hstep).valueHandle

theorem statusHandle_run {es : List FirmwareEvent} {w w' : Firmware}
    (hrun : (firmwareMachine g).run w es = some w') :
    w'.app.mStatusService.valueHandle = w.app.mStatusService.valueHandle := by
  refine Machine.run_preserves
    (I := fun w' => w'.app.mStatusService.valueHandle = w.app.mStatusService.valueHandle)
    ?_ rfl hrun
  intro w₁ e w₂ hw₁ hstep
  exact (statusHandle_step hstep).trans hw₁

end Firmware

/-! ## A full mailbox inside the body -/

/-- Every life of a device is a run of the firmware. -/
theorem Device.reachable_firmware {g : Geometry} {dev : Device}
    (h : (deviceMachine g).Reachable dev) : (firmwareMachine g).Reachable dev.firmware := by
  refine h.invariant (I := fun dev => (firmwareMachine g).Reachable dev.firmware) ?_ ?_
  · rintro _ ⟨chip, inPinState, ctrlHandle, statusHandle, rfl⟩
    exact .init ⟨chip, inPinState, ctrlHandle, statusHandle, rfl⟩
  · intro dev e dev' hdev hstep
    cases e with
    | firmware e =>
        obtain ⟨w, hw, rfl⟩ := Option.map_eq_some_iff.mp hstep
        exact hdev.step hw
    | reboot latch floating inPinState ctrlHandle statusHandle =>
        obtain rfl := Option.some.inj hstep
        exact .init ⟨_, inPinState, ctrlHandle, statusHandle, rfl⟩

namespace Firmware

variable {g : Geometry} {w : Firmware}

/-- A reachable firmware carries out a reachable publisher. -/
theorem reachable_carriesOut (h : (firmwareMachine g).Reachable w) :
    ∃ p, (Publisher.machine ControllerState).Reachable p ∧ w.app.CarriesOut g p := by
  obtain ⟨a, ha, hrel⟩ := (appPart g).reachable h
  have hrel : w.app = a := hrel
  obtain ⟨p, hp, hcarries⟩ := (App.mailbox g).reachable ha
  refine ⟨p, hp, ?_⟩
  rw [hrel]
  exact hcarries

/-- Inside the body the flag is set. -/
theorem full_of_inBody (h : (firmwareMachine g).Reachable w) (hbody : w.app.phase.InBody) :
    w.app.ctrlStateChanged ≠ 0x00 := by
  obtain ⟨p, hp, hcarries⟩ := reachable_carriesOut h
  have hbusy : p.phase = .store ∨ p.phase = .show ∨ p.phase = .clear := by
    rw [hcarries.phase]
    cases hph : w.app.phase with
    | flashWrite => exact .inl rfl
    | statusUpdate => exact .inr (.inl rfl)
    | clearFlag => exact .inr (.inr rfl)
    | test =>
        rw [hph] at hbody
        exact hbody.elim
    | powerManage =>
        rw [hph] at hbody
        exact hbody.elim
  rw [hcarries.flag, (Publisher.machine_consistent hp).busy hbusy]
  decide

end Firmware

/-! ## Boards are devices -/

namespace Progress

/-- What has been loaded is what the mailbox holds. -/
def Holds (a : App) : Progress → Prop
  | .start => True
  | .claimed | .writeEnabled | .copiedLow | .copiedHigh =>
      a.phase = .flashWrite ∧ a.m45pe.spiXferDone = true
  | .loadedPosition pos => a.phase = .statusUpdate ∧ pos = a.ctrlState.position
  | .loadedTarget pos target =>
      a.phase = .statusUpdate ∧ pos = a.ctrlState.position ∧ target = a.ctrlState.target
  | .loadedType pos target targetType =>
      a.phase = .statusUpdate ∧ pos = a.ctrlState.position ∧ target = a.ctrlState.target ∧
        targetType = a.ctrlState.targetType.toByte
  | .called pos target targetType mov | .composed pos target targetType mov =>
      a.phase = .statusUpdate ∧ pos = a.ctrlState.position ∧ target = a.ctrlState.target ∧
        targetType = a.ctrlState.targetType.toByte ∧ mov = a.ctrlState.movement.toByte

/-- The driver at this point of a write that `a` is about to make. -/
def driver (a : App) : Progress → M45pe
  | .claimed => a.m45pe.claim
  | .writeEnabled => a.m45pe.claim.sendWriteEnabled flashCtrlPosKey
  | .copiedLow =>
      (a.m45pe.claim.sendWriteEnabled flashCtrlPosKey).copyByte 0 (lowByte a.ctrlState.position)
  | .copiedHigh =>
      ((a.m45pe.claim.sendWriteEnabled flashCtrlPosKey).copyByte 0
        (lowByte a.ctrlState.position)).copyByte 1 (highByte a.ctrlState.position)
  | _ => a.m45pe

variable {a a' : App}

/-- Before its last transfer a write has changed nothing the chip holds. -/
theorem driver_mem (pr : Progress) : (pr.driver a).chip.mem = a.m45pe.chip.mem := by
  have henabled : (a.m45pe.claim.sendWriteEnabled flashCtrlPosKey).chip.mem =
      a.m45pe.chip.mem := by
    show (a.m45pe.claim.m45peTransferBlocking 1 0).chip.mem = _
    rw [M45pe.transfer_writeEnabled rfl]
    rfl
  cases pr with
  | writeEnabled => exact henabled
  | copiedLow => exact henabled
  | copiedHigh => exact henabled
  | _ => rfl

/-- Within a statement the main loop is inside the body, so the mailbox is full. -/
theorem Holds.inBody {pr : Progress} (h : pr.Holds a) (hpr : pr ≠ .start) : a.phase.InBody := by
  cases pr with
  | start => exact absurd rfl hpr
  | _ =>
      obtain ⟨hphase, -⟩ := h
      rw [hphase]
      trivial

/-- What keeps the place of the main loop and what it works on keeps what it has loaded. -/
theorem Holds.congr {pr : Progress} (h : pr.Holds a) (hphase : a'.phase = a.phase)
    (hm45pe : a'.m45pe = a.m45pe) (hstate : a'.ctrlState = a.ctrlState) : pr.Holds a' := by
  cases pr with
  | start => trivial
  | _ => simpa only [Holds, hphase, hm45pe, hstate] using h

theorem driver_congr (pr : Progress) (hm45pe : a'.m45pe = a.m45pe)
    (hstate : a'.ctrlState = a.ctrlState) : pr.driver a' = pr.driver a := by
  cases pr <;> simp only [driver, hm45pe, hstate]

end Progress

/-! ### An access -/

/-- What the status update `u` has handed over, if anything, is the state `st`, addressed to the
connection there was at that moment; if there was a peer, it has been handed over. -/
structure HandsOver (g : Geometry) (handle : UInt16) (u : StatusUpdate) (st : ControllerState) :
    Prop where
  state : u.state = st
  whole : ∀ hvx, u.hvx = some hvx →
    hvx = { connHandle := u.connHandle, handle := handle, data := encodeState g st }
  heard : u.connHandle ≠ bleConnHandleInvalid → u.hvx ≠ none

namespace App

variable {g : Geometry} {a : App}

/-- The last transfer completes `m45pe_write`. -/
theorem transfer_copiedHigh (h : a.m45pe.spiXferDone = true) :
    (Progress.copiedHigh.driver a).m45peTransferBlocking 6 0 =
      a.m45pe.m45peWrite flashCtrlPosKey (int16Bytes a.ctrlState.position) := by
  unfold M45pe.m45peWrite
  rw [if_neg (by simp [h])]
  rfl

theorem copied_copiedHigh (a : App) : (Progress.copiedHigh.driver a).copied = a.ctrlState.position :=
  int16OfBytes_bytes a.ctrlState.position

/-- The call of `sd_ble_gatts_hvx` with what the mailbox holds. -/
def call (g : Geometry) (a : App) : HvxParams where
  connHandle := a.mStatusService.connHandle
  handle := a.mStatusService.valueHandle
  data := encodeState g a.ctrlState

/-- On a connection it is the status update. -/
theorem onConnection_call (g : Geometry) (a : App) : (a.call g).onConnection = a.statusHvx g := by
  unfold HvxParams.onConnection
  by_cases hconn : a.mStatusService.connHandle = bleConnHandleInvalid
  · rw [statusHvx_of_not_connected hconn]
    exact if_pos hconn
  · rw [statusHvx_of_connected hconn]
    exact if_neg hconn

/-- With its log replaced by `log`, an access of `a` has completed the statement: it has done what the
statement does, and has written down the same status update, up to a call on no connection. -/
def Completes (g : Geometry) (a : App) (log : List StatusUpdate) (r : App × Progress) : Prop :=
  ∃ new : List StatusUpdate,
    r = ((a.mainStep g).withHidden (a.mainStep g).m45pe (log ++ new), .start) ∧
    (a.mainStep g).notifyLog = a.notifyLog ++ new.map StatusUpdate.onConnection ∧
    ∀ u ∈ new, HandsOver g a.mStatusService.valueHandle u u.state

/-- A statement that is no status update writes nothing down. -/
theorem completes_of_ne (log : List StatusUpdate) (hphase : a.phase ≠ .statusUpdate)
    {r : App × Progress}
    (hr : r = ((a.mainStep g).withHidden (a.mainStep g).m45pe log, .start)) :
    a.Completes g log r := by
  refine ⟨[], ?_, ?_, by simp⟩
  · rw [List.append_nil]
    exact hr
  · rw [List.map_nil, List.append_nil]
    exact notifyLog_mainStep g hphase

/-- A status update without a peer makes no call. -/
theorem completes_called (log : List StatusUpdate) (hphase : a.phase = .statusUpdate)
    (hhandle : a.mStatusService.connHandle = a.mConnHandle)
    (hconn : a.mStatusService.connHandle = bleConnHandleInvalid) :
    a.Completes g log
      ({ a with
        notifyLog := log ++ [⟨a.mConnHandle, a.ctrlState, none⟩]
        phase := .clearFlag }, .start) := by
  have hnone := statusHvx_of_not_connected (g := g) hconn
  refine ⟨[⟨a.mConnHandle, a.ctrlState, none⟩], ?_, ?_, ?_⟩
  · unfold mainStep updateStatusService
    rw [hphase, hnone]
    simp [withHidden]
  · unfold mainStep updateStatusService
    rw [hphase, hnone]
    rfl
  · intro u hu
    rw [List.mem_singleton.mp hu]
    refine ⟨rfl, by simp, ?_⟩
    intro hpeer
    exact absurd (hhandle.symm.trans hconn) hpeer

/-- The call of a status update, whether there still is a peer or not. -/
theorem completes_composed (log : List StatusUpdate) (hphase : a.phase = .statusUpdate)
    (hhandle : a.mStatusService.connHandle = a.mConnHandle) :
    a.Completes g log
      ({ a with
        sent := a.sent ++ (a.call g).onConnection.toList
        notifyLog := log ++ [⟨a.mConnHandle, a.ctrlState, some (a.call g)⟩]
        phase := .clearFlag }, .start) := by
  refine ⟨[⟨a.mConnHandle, a.ctrlState, some (a.call g)⟩], ?_, ?_, ?_⟩
  · rw [onConnection_call]
    unfold mainStep updateStatusService
    rw [hphase]
    rfl
  · have hkept : StatusUpdate.onConnection ⟨a.mConnHandle, a.ctrlState, some (a.call g)⟩ =
        ⟨a.mConnHandle, a.ctrlState, a.statusHvx g⟩ :=
      congrArg (StatusUpdate.mk a.mConnHandle a.ctrlState) (onConnection_call g a)
    rw [List.map_singleton, hkept]
    unfold mainStep updateStatusService
    rw [hphase]
  · intro u hu
    rw [List.mem_singleton.mp hu]
    refine ⟨rfl, ?_, by simp⟩
    rintro _ ⟨⟩
    show a.call g = ⟨a.mConnHandle, _, _⟩
    rw [← hhandle]
    rfl

/-- An access at the beginning of a statement. -/
theorem access_start (g : Geometry) (a : App) (log : List StatusUpdate) :
    let r := (a.withHidden a.m45pe log).access g .start
    (r.1 = a.withHidden (r.2.driver a) log ∧ r.2.Holds a) ∨ a.Completes g log r := by
  intro r
  by_cases hsingle : a.phase ≠ .flashWrite ∧ a.phase ≠ .statusUpdate
  · have hr : r = ((a.withHidden a.m45pe log).mainStep g, .start) := access_single hsingle
    refine .inr (completes_of_ne log hsingle.2 (hr.trans ?_))
    unfold mainStep
    cases hphase : a.phase with
    | flashWrite => exact absurd hphase hsingle.1
    | statusUpdate => exact absurd hphase hsingle.2
    | test => simp [withHidden, hphase]
    | clearFlag => simp [withHidden, hphase]
    | powerManage => simp [withHidden, hphase]
  · by_cases hwrite : a.phase = .flashWrite
    · have hr := access_flashWrite (g := g) (a := a.withHidden a.m45pe log) hwrite
      by_cases hdone : a.m45pe.spiXferDone = false
      · -- the write is skipped
        refine .inr (completes_of_ne log (by rw [hwrite]; decide) ?_)
        refine (hr.trans (if_pos hdone)).trans ?_
        unfold mainStep M45pe.m45peWrite
        rw [hwrite, if_pos hdone]
        rfl
      · have hr : r = _ := hr.trans (if_neg hdone)
        rw [hr]
        exact .inl ⟨rfl, hwrite, by simpa using hdone⟩
    · have hupdate : a.phase = .statusUpdate := by
        by_contra hother
        exact hsingle ⟨hwrite, hother⟩
      have hr : r = _ := access_statusUpdate (a := a.withHidden a.m45pe log) hupdate
      rw [hr]
      exact .inl ⟨rfl, hupdate, rfl⟩

/-- An access either leads on within the statement, where all that is touched is the driver, or it
completes the statement. -/
theorem access_withHidden {pr : Progress} (h : pr.Holds a)
    (hhandle : a.mStatusService.connHandle = a.mConnHandle) (log : List StatusUpdate) :
    let r := (a.withHidden (pr.driver a) log).access g pr
    (r.1 = a.withHidden (r.2.driver a) log ∧ r.2.Holds a) ∨ a.Completes g log r := by
  intro r
  cases pr with
  | start => exact access_start g a log
  | claimed => exact .inl ⟨rfl, h⟩
  | writeEnabled => exact .inl ⟨rfl, h⟩
  | copiedLow => exact .inl ⟨rfl, h⟩
  | copiedHigh =>
      refine .inr (completes_of_ne log (by rw [h.1]; decide) ?_)
      show (App.mk _ _ _ _ ((Progress.copiedHigh.driver a).m45peTransferBlocking 6 0) _ _ _
        (a.flashLog ++ [(Progress.copiedHigh.driver a).copied]) _, Progress.start) = _
      rw [transfer_copiedHigh h.2, copied_copiedHigh]
      unfold mainStep
      rw [h.1]
      rfl
  | loadedPosition pos => exact .inl ⟨rfl, h.1, h.2, rfl⟩
  | loadedTarget pos target => exact .inl ⟨rfl, h.1, h.2.1, h.2.2, rfl⟩
  | loadedType pos target targetType => exact .inl ⟨rfl, h.1, h.2.1, h.2.2.1, h.2.2.2, rfl⟩
  | called pos target targetType mov =>
      by_cases hconn : a.mStatusService.connHandle = bleConnHandleInvalid
      · have hr : r = _ := if_neg (not_not.mpr hconn)
        rw [hr]
        exact .inr (completes_called log h.1 hhandle hconn)
      · have hr : r = _ := if_pos hconn
        rw [hr]
        exact .inl ⟨rfl, h⟩
  | composed pos target targetType mov =>
      obtain ⟨hphase, rfl, rfl, rfl, rfl⟩ := h
      exact .inr (completes_composed log hphase hhandle)

end App

/-- The status updates there have been. -/
def Board.notifyLog (b : Board) : List StatusUpdate := b.device.firmware.app.notifyLog

/-- The device `dev` describes the board `b`: it stands at the beginning of the statement the board is
within, and has made the same calls, up to calls on no connection. -/
structure Board.DescribedBy (g : Geometry) (b : Board) (dev : Device) : Prop where
  reachable : (deviceMachine g).Reachable dev
  device : b.device = dev.withApp
    (dev.firmware.app.withHidden (b.progress.driver dev.firmware.app) b.notifyLog)
  holds : b.progress.Holds dev.firmware.app
  log : b.notifyLog.map StatusUpdate.onConnection = dev.firmware.app.notifyLog
  calls : ∀ u ∈ b.notifyLog, HandsOver g dev.firmware.app.mStatusService.valueHandle u u.state

namespace Board

variable {g : Geometry} {b b' : Board} {dev dev' : Device}

/-- At boot the board is the device. -/
theorem describedBy_boot {chip : M45peChip} {x : Int16} {inPinState : UInt32}
    {ctrlHandle statusHandle : UInt16}
    (h : (deviceMachine g).Reachable ⟨.boot chip inPinState ctrlHandle statusHandle, x⟩) :
    Board.DescribedBy g ⟨⟨.boot chip inPinState ctrlHandle statusHandle, x⟩, .start⟩
      ⟨.boot chip inPinState ctrlHandle statusHandle, x⟩ := by
  have hlog : (Firmware.boot chip inPinState ctrlHandle statusHandle).app.notifyLog = [] :=
    (App.undisturbed_callbacks _ _).notifyLog
  refine ⟨h, rfl, trivial, ?_, ?_⟩
  · show List.map _ (Firmware.boot chip inPinState ctrlHandle statusHandle).app.notifyLog =
      (Firmware.boot chip inPinState ctrlHandle statusHandle).app.notifyLog
    rw [hlog]
    rfl
  · intro u hu
    have hu : u ∈ (Firmware.boot chip inPinState ctrlHandle statusHandle).app.notifyLog := hu
    rw [hlog] at hu
    cases hu

theorem describedBy_init (h : (boardMachine g).init b) : b.DescribedBy g b.device := by
  obtain ⟨device, progress⟩ := b
  obtain ⟨hdevice, hprogress⟩ := h
  have hprogress : progress = .start := hprogress
  subst hprogress
  have hreach : (deviceMachine g).Reachable device := .init hdevice
  obtain ⟨chip, inPinState, ctrlHandle, statusHandle, rfl⟩ := hdevice
  exact describedBy_boot hreach

/-- An access is no step of the device or it is a statement of its main loop. -/
theorem DescribedBy.access (h : b.DescribedBy g dev)
    (hstep : (boardMachine g).step b (.firmware .mainStep) = some b') :
    ∃ fs dev', (deviceMachine g).run dev fs = some dev' ∧
      fs.filterMap DeviceEvent.interrupt = [] ∧ b'.DescribedBy g dev' := by
  have hb' : (⟨b.device.withApp (b.device.firmware.app.access g b.progress).1,
      (b.device.firmware.app.access g b.progress).2⟩ : Board) = b' := Option.some.inj hstep
  have hdevice : b.device.withApp (b.device.firmware.app.access g b.progress).1 =
      dev.withApp (b.device.firmware.app.access g b.progress).1 := by
    rw [h.device]
    rfl
  have happ : b.device.firmware.app =
      dev.firmware.app.withHidden (b.progress.driver dev.firmware.app) b.notifyLog := by
    rw [h.device]
    rfl
  rw [hdevice, happ] at hb'
  have hhandle : dev.firmware.app.mStatusService.connHandle = dev.firmware.app.mConnHandle := by
    obtain ⟨p, -, hcarries⟩ :=
      Firmware.reachable_carriesOut (Device.reachable_firmware h.reachable)
    exact hcarries.handle
  rcases App.access_withHidden (g := g) h.holds hhandle b.notifyLog with
    ⟨hwithin, hholds⟩ | ⟨new, hdone, hlog, hnew⟩
  · have hsame : b'.notifyLog = b.notifyLog := by
      rw [← hb', hwithin]
      rfl
    refine ⟨[], dev, rfl, rfl, h.reachable, ?_, ?_, ?_, ?_⟩
    · rw [hsame, ← hb', ← hwithin]
    · rw [← hb']
      exact hholds
    · rw [hsame]
      exact h.log
    · rw [hsame]
      exact h.calls
  · rw [hdone] at hb'
    have hgrown : b'.notifyLog = b.notifyLog ++ new := by
      rw [← hb']
      rfl
    have hrun : (deviceMachine g).run dev [.firmware .mainStep] =
        some (dev.withApp (dev.firmware.app.mainStep g)) := rfl
    refine ⟨_, _, hrun, rfl, h.reachable.run hrun, ?_, ?_, ?_, ?_⟩
    · rw [hgrown, ← hb']
      rfl
    · rw [← hb']
      trivial
    · rw [hgrown, List.map_append, h.log]
      exact hlog.symm
    · intro u hu
      show HandsOver g (dev.firmware.app.mainStep g).mStatusService.valueHandle u u.state
      rw [App.valueHandle_mainStep]
      rw [hgrown] at hu
      rcases List.mem_append.mp hu with hold | hlast
      · exact h.calls u hold
      · exact hnew u hlast

/-- What describes a board keeps describing it through an interrupt. -/
theorem DescribedBy.interrupt (h : b.DescribedBy g dev) {e : FirmwareEvent} (he : e ≠ .mainStep)
    (hstep : (boardMachine g).step b (.firmware e) = some b') :
    ∃ dev', (deviceMachine g).step dev (.firmware e) = some dev' ∧ b'.DescribedBy g dev' := by
  have hboard : ((deviceMachine g).step b.device (.firmware e)).map
      (fun dev => (⟨dev, b.progress⟩ : Board)) = some b' := by
    cases e with
    | mainStep => exact absurd rfl he
    | tick r => exact hstep
    | ble evt => exact hstep
  obtain ⟨after, hafter, rfl⟩ := Option.map_eq_some_iff.mp hboard
  obtain ⟨w, hw, rfl⟩ := Option.map_eq_some_iff.mp hafter
  rw [h.device] at hw
  obtain ⟨w', hw', rfl⟩ := Option.map_eq_some_iff.mp
    ((Firmware.step_withHidden he dev.firmware _ _).symm.trans hw)
  have hdev : (deviceMachine g).step dev (.firmware e) = some { dev with firmware := w' } :=
    Option.map_eq_some_iff.mpr ⟨w', hw', rfl⟩
  have hsame := Firmware.undisturbed_step he hw'
  refine ⟨_, hdev, h.reachable.step hdev, ?_, ?_, ?_, ?_⟩
  · show ({ b.device with firmware := _ } : Device) =
      { dev with firmware := w'.withHidden _ b.notifyLog }
    rw [h.device]
    by_cases hpr : b.progress = .start
    · rw [hpr]
      show ({ dev with firmware := w'.withHidden dev.firmware.app.m45pe _ } : Device) =
        { dev with firmware := w'.withHidden w'.app.m45pe _ }
      rw [hsame.m45pe]
    · have hfull := Firmware.full_of_inBody (Device.reachable_firmware h.reachable)
        (h.holds.inBody hpr)
      rw [Progress.driver_congr b.progress hsame.m45pe (hsame.full hfull).2]
      rfl
  · by_cases hpr : b.progress = .start
    · show b.progress.Holds w'.app
      rw [hpr]
      trivial
    · have hfull := Firmware.full_of_inBody (Device.reachable_firmware h.reachable)
        (h.holds.inBody hpr)
      exact h.holds.congr hsame.phase hsame.m45pe (hsame.full hfull).2
  · show b.notifyLog.map _ = w'.app.notifyLog
    rw [hsame.notifyLog]
    exact h.log
  · show ∀ u ∈ b.notifyLog, HandsOver g w'.app.mStatusService.valueHandle u u.state
    rw [hsame.valueHandle]
    exact h.calls

/-- A power cut loses what is underway and keeps what the chip holds. -/
theorem DescribedBy.reboot (h : b.DescribedBy g dev) {latch : Bool} {floating : ℕ → UInt8}
    {inPinState : UInt32} {ctrlHandle statusHandle : UInt16}
    (hstep : (boardMachine g).step b
      (.reboot latch floating inPinState ctrlHandle statusHandle) = some b') :
    ∃ dev', (deviceMachine g).step dev
        (.reboot latch floating inPinState ctrlHandle statusHandle) = some dev' ∧
      b'.DescribedBy g dev' := by
  have hreboot : (deviceMachine g).step b.device
      (.reboot latch floating inPinState ctrlHandle statusHandle) =
        (deviceMachine g).step dev
          (.reboot latch floating inPinState ctrlHandle statusHandle) := by
    show some (Device.mk (.boot ⟨b.device.firmware.app.m45pe.chip.mem, _, _⟩ _ _ _)
      b.device.persisted) = _
    have hmem := Progress.driver_mem (a := dev.firmware.app) b.progress
    rw [h.device]
    show some (Device.mk (.boot
      ⟨(b.progress.driver dev.firmware.app).chip.mem, _, _⟩ _ _ _) dev.persisted) = _
    rw [hmem]
    rfl
  have hboard : ((deviceMachine g).step b.device
      (.reboot latch floating inPinState ctrlHandle statusHandle)).map
        (fun dev => (⟨dev, .start⟩ : Board)) = some b' := hstep
  obtain ⟨dev', hdev', rfl⟩ := Option.map_eq_some_iff.mp hboard
  rw [hreboot] at hdev'
  obtain rfl := Option.some.inj hdev'
  exact ⟨_, hdev', describedBy_boot (h.reachable.step hdev')⟩

/-- **The board refines the device.** -/
def atomic (g : Geometry) : Machine.Refinement (boardMachine g) (deviceMachine g)
    DeviceEvent.interrupt DeviceEvent.interrupt where
  rel := DescribedBy g
  step := by
    intro b e b' dev h hstep
    have hsingle : ∀ dev', (deviceMachine g).step dev e = some dev' → b'.DescribedBy g dev' →
        ∃ fs a', (deviceMachine g).run dev fs = some a' ∧
          fs.filterMap DeviceEvent.interrupt = [e].filterMap DeviceEvent.interrupt ∧
            b'.DescribedBy g a' :=
      fun dev' hdev' h' => ⟨[e], dev', (Machine.run_singleton _ _).trans hdev', rfl, h'⟩
    cases e with
    | firmware e =>
        by_cases he : e = .mainStep
        · subst he
          exact h.access hstep
        · obtain ⟨dev', hdev', h'⟩ := h.interrupt he hstep
          exact hsingle dev' hdev' h'
    | reboot latch floating inPinState ctrlHandle statusHandle =>
        obtain ⟨dev', hdev', h'⟩ := h.reboot hstep
        exact hsingle dev' hdev' h'

/-- **Statements are atomic.** For every run of a board, in which handlers and power cuts fall
between any two accesses of the main loop, there is a run of the device, whose statements go by
undisturbed, with the same interrupts and reboots in the same order. At its end the two differ in
nothing but the driver's flag and buffers, the chip's latch and the calls of `sd_ble_gatts_hvx` on no
connection: controller, mailbox and services are the same, so are the positions written and what was
handed over on the current connection, and so is what the chip holds; and so are the status updates,
up to calls that were made with `BLE_CONN_HANDLE_INVALID`. -/
theorem linearizes {b₀ : Board} (hinit : (boardMachine g).init b₀) {es : List DeviceEvent}
    (hrun : (boardMachine g).run b₀ es = some b) :
    ∃ fs dev, (deviceMachine g).run b₀.device fs = some dev ∧
      fs.filterMap DeviceEvent.interrupt = es.filterMap DeviceEvent.interrupt ∧
      b.device = dev.withApp
        (dev.firmware.app.withHidden b.device.firmware.app.m45pe b.notifyLog) ∧
      b.device.firmware.app.m45pe.chip.mem = dev.firmware.app.m45pe.chip.mem ∧
      b.notifyLog.map StatusUpdate.onConnection = dev.firmware.app.notifyLog := by
  obtain ⟨fs, dev, hfs, hvis, hrel⟩ := (atomic g).run (describedBy_init hinit) hrun
  have hrel : b.DescribedBy g dev := hrel
  have hdriver : b.device.firmware.app.m45pe = b.progress.driver dev.firmware.app := by
    rw [hrel.device]
    rfl
  refine ⟨fs, dev, hfs, hvis, ?_, ?_, hrel.log⟩
  · rw [hdriver]
    exact hrel.device
  · rw [hdriver]
    exact b.progress.driver_mem

/-- The board at boot. -/
def atBoot : Board := ⟨⟨Firmware.bootAtZero, 0⟩, .start⟩

theorem atBoot_init (g : Geometry) : (boardMachine g).init atBoot := ⟨⟨_, _, _, _, rfl⟩, rfl⟩

/-- A client connects and goes again between the test of the connection handle and the call. -/
def hangUp : List DeviceEvent :=
  .firmware (.ble (.connected 5)) ::
    (List.replicate 11 (.firmware .mainStep) ++
      [.firmware (.ble .disconnected), .firmware .mainStep])

/-- The call is made on no connection, which no undisturbed run does. -/
theorem linearizes_hangUp :
    ∃ b fs dev, (boardMachine .shipped).run atBoot hangUp = some b ∧
      (deviceMachine .shipped).run atBoot.device fs = some dev ∧
      fs.filterMap DeviceEvent.interrupt = hangUp.filterMap DeviceEvent.interrupt ∧
      b.notifyLog.map (·.hvx) = [some ⟨bleConnHandleInvalid, 14,
        encodeState .shipped Firmware.bootAtZero.app.ctrlState⟩] ∧
      dev.firmware.app.notifyLog.map (·.hvx) = [none] := by
  have hrun : ∃ b, (boardMachine .shipped).run atBoot hangUp = some b ∧
      b.notifyLog = [⟨bleConnHandleInvalid, Firmware.bootAtZero.app.ctrlState,
        some ⟨bleConnHandleInvalid, 14,
          encodeState .shipped Firmware.bootAtZero.app.ctrlState⟩⟩] := ⟨_, rfl, rfl⟩
  obtain ⟨b, hb, hlog⟩ := hrun
  obtain ⟨fs, dev, hfs, hvis, -, -, hsame⟩ := linearizes (atBoot_init .shipped) hb
  refine ⟨b, fs, dev, hb, hfs, hvis, ?_, ?_⟩
  · rw [hlog]
    rfl
  · rw [← hsame, hlog]
    rfl

end Board

/-! ## What is published -/

namespace App

variable {g : Geometry} {a : App}

/-- The mailbox holds a callback's state, and so does every notification on the current connection,
to which it is addressed. -/
structure Genuine (g : Geometry) (a : App) : Prop where
  slot : a.ctrlState ∈ a.callbacks
  handle : a.mStatusService.connHandle = a.mConnHandle
  sent : ∀ hvx ∈ a.sent, hvx.connHandle = a.mConnHandle ∧ hvx.connHandle ≠ bleConnHandleInvalid ∧
    hvx.handle = a.mStatusService.valueHandle ∧ ∃ st ∈ a.callbacks, hvx.data = encodeState g st

/-- What a status update hands over. -/
theorem Genuine.statusHvx (hslot : a.ctrlState ∈ a.callbacks)
    (hhandle : a.mStatusService.connHandle = a.mConnHandle) :
    ∀ hvx ∈ (a.statusHvx g).toList, hvx.connHandle = a.mConnHandle ∧
      hvx.connHandle ≠ bleConnHandleInvalid ∧ hvx.handle = a.mStatusService.valueHandle ∧
        ∃ st ∈ a.callbacks, hvx.data = encodeState g st := by
  intro hvx hmem
  by_cases hconn : a.mStatusService.connHandle = bleConnHandleInvalid
  · rw [statusHvx_of_not_connected hconn] at hmem
    cases hmem
  · rw [statusHvx_of_connected hconn, Option.toList_some, List.mem_singleton] at hmem
    rw [hmem]
    exact ⟨hhandle, hconn, rfl, a.ctrlState, hslot, rfl⟩

theorem Genuine.mainStep (h : a.Genuine g) : (a.mainStep g).Genuine g := by
  unfold App.mainStep
  cases a.phase with
  | test => exact ⟨h.slot, h.handle, h.sent⟩
  | flashWrite => exact ⟨h.slot, h.handle, h.sent⟩
  | statusUpdate =>
      refine ⟨h.slot, h.handle, ?_⟩
      intro hvx hmem
      rcases List.mem_append.mp hmem with hold | hnew
      · exact h.sent hvx hold
      · exact Genuine.statusHvx h.slot h.handle hvx hnew
  | clearFlag => exact ⟨h.slot, h.handle, h.sent⟩
  | powerManage => exact ⟨h.slot, h.handle, h.sent⟩

theorem Genuine.controllerCb (h : a.Genuine g) (st : ControllerState) :
    (a.controllerCb st).Genuine g := by
  have hsent : ∀ hvx ∈ a.sent, hvx.connHandle = a.mConnHandle ∧
      hvx.connHandle ≠ bleConnHandleInvalid ∧ hvx.handle = a.mStatusService.valueHandle ∧
        ∃ st' ∈ a.callbacks ++ [st], hvx.data = encodeState g st' := by
    intro hvx hmem
    obtain ⟨hconn, hvalid, hhandle, st', hst', hdata⟩ := h.sent hvx hmem
    exact ⟨hconn, hvalid, hhandle, st', List.mem_append_left _ hst', hdata⟩
  unfold App.controllerCb
  dsimp only
  split_ifs
  · exact ⟨List.mem_append_right _ (List.mem_singleton.mpr rfl), h.handle, hsent⟩
  · exact ⟨List.mem_append_left _ h.slot, h.handle, hsent⟩

theorem Genuine.bleEvtDispatch (h : a.Genuine g) (evt : BleEvt) :
    (a.bleEvtDispatch g evt).Genuine g := by
  cases evt with
  | connected connHandle =>
      refine ⟨h.slot, rfl, ?_⟩
      -- the first notification on the connection
      exact Genuine.statusHvx (a := { a with
        mStatusService := { a.mStatusService with connHandle := connHandle }
        mConnHandle := connHandle
        sent := [] }) h.slot rfl
  | disconnected => exact ⟨h.slot, rfl, by simp [App.bleEvtDispatch, onBleEvt]⟩
  | write e => exact h
  | other => exact h

theorem reachable_genuine (h : (appMachine g).Reachable a) : a.Genuine g := by
  refine h.invariant ?_ ?_
  · rintro _ ⟨d, valueHandle, st, -, rfl⟩
    exact ⟨List.mem_singleton.mpr rfl, rfl, by simp [App.controllerCb, beforeInitFinished]⟩
  · rintro a e _ ha ⟨⟩
    cases e with
    | mainStep => exact ha.mainStep
    | callback st => exact ha.controllerCb st
    | ble evt => exact ha.bleEvtDispatch evt

end App

namespace Board

variable {g : Geometry} {b : Board}

/-- A reachable board is described by a reachable device. -/
theorem reachable_described (h : (boardMachine g).Reachable b) : ∃ dev, b.DescribedBy g dev := by
  obtain ⟨b₀, es, hinit, hrun⟩ := h
  obtain ⟨-, dev, -, -, hrel⟩ := (atomic g).run (describedBy_init hinit) hrun
  exact ⟨dev, hrel⟩

/-- **What is published is whole.** Wherever handlers fall between the accesses of the main loop:
every notification on the current connection is addressed to it and to the status characteristic and
encodes the state of one callback; and the `i`-th flash write and the `i`-th status update are of one
and the same callback, the callbacks published being taken in order. A call that comes too late, when
the peer has gone, is whole as well. -/
theorem published_whole (h : (boardMachine g).Reachable b) :
    (∀ hvx ∈ b.device.firmware.app.sent,
      hvx.connHandle = b.device.firmware.app.mConnHandle ∧ hvx.connHandle ≠ bleConnHandleInvalid ∧
      hvx.handle = b.device.firmware.app.mStatusService.valueHandle ∧
      ∃ st ∈ b.device.firmware.app.callbacks, hvx.data = encodeState g st) ∧
    ∃ sts shown : List ControllerState, sts.Sublist b.device.firmware.app.callbacks ∧
      b.device.firmware.app.flashLog <+: sts.map (·.position) ∧ shown <+: sts ∧
      List.Forall₂ (HandsOver g b.device.firmware.app.mStatusService.valueHandle) b.notifyLog
        shown := by
  obtain ⟨dev, hdev⟩ := reachable_described h
  obtain ⟨a, ha, hrel⟩ := (Firmware.appPart g).reachable (Device.reachable_firmware hdev.reachable)
  have hrel : dev.firmware.app = a := hrel
  rw [← hrel] at ha
  have hsent := (App.reachable_genuine ha).sent
  obtain ⟨sts, shown, hsub, hwritten, hshown, hnotifies⟩ := App.published_in_order ha
  -- the calls the board has made are whole, and they are of the states the device has shown
  rw [← hdev.log, List.forall₂_map_left_iff] at hnotifies
  have hcalls : List.Forall₂ (HandsOver g dev.firmware.app.mStatusService.valueHandle) b.notifyLog
      shown := by
    refine ((List.forall₂_and_left _ _).mpr ⟨hdev.calls, hnotifies⟩).imp ?_
    rintro u st ⟨hwhole, hstate⟩
    have hsame : u.state = st := hstate.state
    rwa [hsame] at hwhole
  rw [hdev.device]
  exact ⟨hsent, sts, shown, hsub, hwritten, hshown, hcalls⟩

/-- A client connects while the position is being copied, and the desk is sent off and counts an edge
between two arguments of the status update. -/
def midUpdate : List DeviceEvent :=
  List.replicate 4 (.firmware .mainStep) ++ .firmware (.ble (.connected 5)) ::
    (List.replicate 3 (.firmware .mainStep) ++
      .firmware (.ble (.write (.ofBytes 7 [0x60, 0x48, 0x03]))) :: .firmware (.tick 1) ::
        List.replicate 6 (.firmware .mainStep))

/-- The status update that is interrupted has handed over the state it began with. -/
theorem published_whole_midUpdate :
    ∃ b, (boardMachine .shipped).run atBoot midUpdate = some b ∧
      b.device.firmware.app.phase = .powerManage ∧ b.device.firmware.app.sent.length = 2 ∧
      ∀ hvx ∈ b.device.firmware.app.sent, hvx.connHandle = b.device.firmware.app.mConnHandle ∧
        hvx.connHandle ≠ bleConnHandleInvalid ∧
        hvx.handle = b.device.firmware.app.mStatusService.valueHandle ∧
        ∃ st ∈ b.device.firmware.app.callbacks, hvx.data = encodeState .shipped st := by
  have hrun : ∃ b, (boardMachine .shipped).run atBoot midUpdate = some b ∧
      b.device.firmware.app.phase = .powerManage ∧ b.device.firmware.app.sent.length = 2 :=
    ⟨_, rfl, rfl, rfl⟩
  obtain ⟨b, hb, hphase, hlen⟩ := hrun
  exact ⟨b, hb, hphase, hlen, (published_whole ⟨_, _, atBoot_init .shipped, hb⟩).1⟩

/-- **A power cut anywhere.** Whenever the power is cut, also in the middle of a write, the next
`system_init` finds the position last persisted, and that is one this life has inherited or the
position of one of its callbacks. -/
theorem cut_anywhere (h : (boardMachine g).Reachable b) (latch : Bool) (floating : ℕ → UInt8)
    (inPinState : UInt32) :
    (Firmware.systemInit inPinState
      (M45pe.powerUp ⟨b.device.firmware.app.m45pe.chip.mem, latch, floating⟩).m45Init).2 =
        .controllerInit b.device.persisted.toInt32 inPinState ∧
    (b.device.persisted = b.device.inherited ∨
      ∃ st ∈ b.device.firmware.app.callbacks, b.device.persisted = st.position) := by
  obtain ⟨dev, hdev⟩ := reachable_described h
  obtain ⟨a, ha, hrel⟩ := (Firmware.appPart g).reachable (Device.reachable_firmware hdev.reachable)
  have hrel : dev.firmware.app = a := hrel
  rw [← hrel] at ha
  have hmem : b.device.firmware.app.m45pe.chip.mem = dev.firmware.app.m45pe.chip.mem := by
    rw [hdev.device]
    exact b.progress.driver_mem
  have hpersisted : b.device.persisted = dev.persisted := by
    rw [hdev.device]
    rfl
  constructor
  · rw [(Firmware.systemInit_eq rfl inPinState).2.2, hpersisted,
      ← (Device.reachable_persistent hdev.reachable).position, hmem]
    rfl
  · obtain ⟨sts, -, hsub, hprefix, -⟩ := App.published_in_order ha
    rw [hdev.device]
    show dev.persisted = dev.inherited ∨ ∃ st ∈ dev.firmware.app.callbacks, dev.persisted = st.position
    unfold Device.persisted
    cases hlast : dev.firmware.app.flashLog.getLast? with
    | none => exact .inl rfl
    | some x =>
        right
        have hx : x ∈ sts.map (·.position) := hprefix.subset (List.mem_of_getLast? hlast)
        obtain ⟨st, hst, rfl⟩ := List.mem_map.mp hx
        exact ⟨st, hsub.subset hst, rfl⟩

/-- A desk that has counted an edge loses its power before the last transfer of the write. -/
def midWrite : List DeviceEvent :=
  List.replicate 13 (.firmware .mainStep) ++
    .firmware (.ble (.write (.ofBytes 7 [0x60, 0x48, 0x03]))) ::
      (List.replicate 13 (.firmware .mainStep) ++
        .firmware (.tick 1) :: List.replicate 5 (.firmware .mainStep))

theorem cut_anywhere_midWrite :
    ∃ b, (boardMachine .shipped).run atBoot midWrite = some b ∧ b.progress = .copiedHigh ∧
      (Firmware.systemInit 0
        (M45pe.powerUp ⟨b.device.firmware.app.m45pe.chip.mem, true, fun _ => 0⟩).m45Init).2 =
          .controllerInit b.device.persisted.toInt32 0 ∧ b.device.persisted = 0 := by
  have hrun : ∃ b, (boardMachine .shipped).run atBoot midWrite = some b ∧
      b.progress = .copiedHigh ∧ b.device.persisted = 0 := ⟨_, rfl, rfl, rfl⟩
  obtain ⟨b, hb, hprogress, hpos⟩ := hrun
  exact ⟨b, hb, hprogress,
    (cut_anywhere ⟨_, _, atBoot_init .shipped, hb⟩ true (fun _ => 0) 0).1, hpos⟩

end Board

end Acromegaly
