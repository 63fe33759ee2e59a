import Acromegaly.Found.Publisher
import Acromegaly.Found.TwosComplement
import Acromegaly.Model.App
import Mathlib.Data.List.Forall2

/-!
# The mailbox between the controller and the main loop

The application is a one-slot publisher (`mailbox`): `ctrl_state` is its slot, the flash its store
and a connected client its peer. What `Publisher` proves of any such machine is read back here for
flash bytes and notifications: with the flag clear, flash and client have the slot
(`published_consistent`), and what was published, was published in the order of the callbacks.
-/

namespace Acromegaly

open Found

/-- The bytes of a notification that report a controller state. -/
def encodeState (g : Geometry) (st : ControllerState) : List UInt8 :=
  statusValue g st.position st.target st.targetType.toByte st.movement.toByte

/-! ## The flash behind the main loop -/

/-- The position written is the position found. -/
theorem position_m45peWrite {d : M45pe} (h : d.spiXferDone = true) (x : Int16) :
    (d.m45peWrite flashCtrlPosKey (int16Bytes x)).chip.position = x := by
  have hlen : (int16Bytes x).length = 2 := rfl
  have hmem := (M45pe.m45peWrite_of_done h flashCtrlPosKey (by rw [hlen]; decide)).2
  unfold M45peChip.position
  rw [hmem]
  have h₀ : store d.chip.mem flashCtrlPosKey.toNat (int16Bytes x) flashCtrlPosKey.toNat = lowByte x :=
    store_add (i := 0) (by rw [hlen]; decide)
  have h₁ : store d.chip.mem flashCtrlPosKey.toNat (int16Bytes x) (flashCtrlPosKey.toNat + 1) =
      highByte x :=
    store_add (i := 1) (by rw [hlen]; decide)
  rw [h₀, h₁, int16OfBytes_bytes]

/-! ## The application is a publisher -/

/-- The consumer's phase. -/
def LoopPhase.toConsumer : LoopPhase → ConsumerPhase
  | .test => .test
  | .flashWrite => .store
  | .statusUpdate => .show
  | .clearFlag => .clear
  | .powerManage => .idle

/-- The status update `u` was of the state `st`: it has handed over its encoding, to the peer there was
at that moment, and nothing exactly if there was none. -/
structure Notifies (g : Geometry) (handle : UInt16) (u : StatusUpdate) (st : ControllerState) :
    Prop where
  state : u.state = st
  hvx : u.hvx =
    if u.connHandle ≠ bleConnHandleInvalid then
      some { connHandle := u.connHandle, handle := handle, data := encodeState g st }
    else none

/-- The application `a` carries out the publisher `p`. -/
structure App.CarriesOut (g : Geometry) (a : App) (p : Publisher ControllerState) : Prop where
  slot : a.ctrlState = p.slot
  flag : a.ctrlStateChanged = if p.full then 0x01 else 0x00
  phase : p.phase = a.phase.toConsumer
  attached : p.attached = true ↔ a.mConnHandle ≠ bleConnHandleInvalid
  handle : a.mStatusService.connHandle = a.mConnHandle
  done : a.m45pe.spiXferDone = true
  stored : ∀ st, p.stored = some st → a.m45pe.chip.position = st.position
  shown : ∀ st, p.shown = some st → ∃ hvx, a.sent.getLast? = some hvx ∧
    hvx.connHandle = a.mConnHandle ∧ hvx.data = encodeState g st
  offered : a.callbacks = p.offered
  stores : a.flashLog = p.stores.map (·.position)
  shows : List.Forall₂ (Notifies g a.mStatusService.valueHandle) a.notifyLog p.shows

namespace App

variable {g : Geometry} {a : App} {p : Publisher ControllerState}

/-- While connected, a status update hands over the state of the slot. -/
theorem statusHvx_of_connected (h : a.mStatusService.connHandle ≠ bleConnHandleInvalid) :
    a.statusHvx g = some
      { connHandle := a.mStatusService.connHandle
        handle := a.mStatusService.valueHandle
        data := encodeState g a.ctrlState } := if_pos h

theorem statusHvx_of_not_connected (h : a.mStatusService.connHandle = bleConnHandleInvalid) :
    a.statusHvx g = none := if_neg (not_not.mpr h)

/-- The status service and `main.c` have the same connection, so it is the peer there is. -/
theorem notifies_statusHvx (g : Geometry) (h : a.mStatusService.connHandle = a.mConnHandle) :
    Notifies g a.mStatusService.valueHandle ⟨a.mConnHandle, a.ctrlState, a.statusHvx g⟩
      a.ctrlState where
  state := rfl
  hvx := by
    rw [← h]
    rfl

/-- After a status update while connected, the last notification carries the slot. -/
theorem getLast?_updateStatusService (h : a.mStatusService.connHandle ≠ bleConnHandleInvalid) :
    ∃ hvx, (a.updateStatusService g).sent.getLast? = some hvx ∧
      hvx.connHandle = a.mStatusService.connHandle ∧ hvx.data = encodeState g a.ctrlState := by
  refine ⟨⟨a.mStatusService.connHandle, a.mStatusService.valueHandle, encodeState g a.ctrlState⟩,
    ?_, rfl, rfl⟩
  unfold updateStatusService
  rw [statusHvx_of_connected h, Option.toList_some, List.getLast?_append]
  rfl

/-- `on_init_finished` is the publisher's first offer. -/
theorem carriesOut_start {d : M45pe} (hd : d.spiXferDone = true) (valueHandle : UInt16)
    (st : ControllerState) :
    ((beforeInitFinished d valueHandle).controllerCb st).CarriesOut g (Publisher.start st) where
  slot := rfl
  flag := rfl
  phase := rfl
  attached := by simp [Publisher.start, controllerCb, beforeInitFinished]
  handle := rfl
  done := hd
  stored := by rintro st ⟨⟩
  shown := by rintro st ⟨⟩
  offered := rfl
  stores := rfl
  shows := .nil

/-- A callback is an offer. -/
theorem CarriesOut.controllerCb (h : a.CarriesOut g p) (st : ControllerState) :
    (a.controllerCb st).CarriesOut g (p.offer st) := by
  have hflag := h.flag
  unfold App.controllerCb Publisher.offer
  cases hf : p.full with
  | true =>
      rw [hf] at hflag
      have hne : ¬a.ctrlStateChanged = 0x00 := by rw [hflag]; decide
      simp only [hne, if_true, if_false]
      exact { h with flag := by simpa [hf] using hflag, offered := by rw [h.offered] }
  | false =>
      rw [hf] at hflag
      have heq : a.ctrlStateChanged = 0x00 := hflag
      simp only [heq, if_true, Bool.false_eq_true, if_false]
      exact { h with slot := rfl, flag := rfl, offered := by rw [h.offered] }

/-- The flash write of the main loop stores the slot. -/
theorem CarriesOut.flashWrite (h : a.CarriesOut g p) :
    CarriesOut g
      { a with
        m45pe := a.m45pe.m45peWrite flashCtrlPosKey (int16Bytes a.ctrlState.position)
        flashLog := a.flashLog ++ [a.ctrlState.position]
        phase := .statusUpdate }
      { p with stored := some p.slot, stores := p.stores ++ [p.slot], phase := .show } where
  slot := h.slot
  flag := h.flag
  phase := rfl
  attached := h.attached
  handle := h.handle
  done := by
    have hlen : (int16Bytes a.ctrlState.position).length = 2 := rfl
    exact (M45pe.m45peWrite_of_done h.done flashCtrlPosKey (by rw [hlen]; decide)).1
  stored := by
    rintro st ⟨⟩
    rw [← h.slot]
    exact position_m45peWrite h.done a.ctrlState.position
  shown := h.shown
  offered := h.offered
  stores := by simp [h.stores, h.slot]
  shows := h.shows

/-- The status update of the main loop shows the slot to a connected client. -/
theorem CarriesOut.statusUpdate (h : a.CarriesOut g p) :
    CarriesOut g
      { a.updateStatusService g with
        notifyLog := a.notifyLog ++ [⟨a.mConnHandle, a.ctrlState, a.statusHvx g⟩]
        phase := .clearFlag }
      { p with
        shown := if p.attached then some p.slot else p.shown
        shows := p.shows ++ [p.slot]
        phase := .clear } where
  slot := h.slot
  flag := h.flag
  phase := rfl
  attached := h.attached
  handle := h.handle
  done := h.done
  stored := h.stored
  shown := by
    intro st hst
    by_cases ha : p.attached = true
    · simp only [ha, if_true, Option.some.injEq] at hst
      subst hst
      have hconn : a.mStatusService.connHandle ≠ bleConnHandleInvalid := by
        rw [h.handle]
        exact h.attached.mp ha
      obtain ⟨hvx, hlast, hhandle, hdata⟩ := getLast?_updateStatusService (g := g) hconn
      exact ⟨hvx, hlast, hhandle.trans h.handle, hdata.trans (by rw [h.slot])⟩
    · simp only [ha] at hst
      have hconn : a.mStatusService.connHandle = bleConnHandleInvalid := by
        rw [h.handle]
        exact not_not.mp (mt h.attached.mpr ha)
      simp only [updateStatusService, statusHvx_of_not_connected hconn, Option.toList_none,
        List.append_nil]
      exact h.shown st hst
  offered := h.offered
  stores := h.stores
  shows := by
    show List.Forall₂ _ (a.notifyLog ++ [_]) (p.shows ++ [p.slot])
    rw [← h.slot]
    exact List.rel_append h.shows (.cons (notifies_statusHvx g h.handle) .nil)

/-- A step of the main loop is a step of the consumer. -/
theorem CarriesOut.mainStep (h : a.CarriesOut g p) : (a.mainStep g).CarriesOut g p.advance := by
  have hflag := h.flag
  have hphase := h.phase
  unfold App.mainStep Publisher.advance
  cases hph : a.phase with
  | test =>
      rw [hph] at hphase
      rw [hphase]
      refine { h with phase := ?_ }
      simp only [LoopPhase.toConsumer]
      cases hf : p.full with
      | true =>
          rw [hf] at hflag
          rw [hflag]
          rfl
      | false =>
          rw [hf] at hflag
          rw [hflag]
          rfl
  | flashWrite =>
      rw [hph] at hphase
      rw [hphase]
      exact h.flashWrite
  | statusUpdate =>
      rw [hph] at hphase
      rw [hphase]
      exact h.statusUpdate
  | clearFlag =>
      rw [hph] at hphase
      rw [hphase]
      exact { h with flag := rfl, phase := rfl }
  | powerManage =>
      rw [hph] at hphase
      rw [hphase]
      exact { h with phase := rfl }

/-- A connection attaches a peer and shows it the slot. -/
theorem CarriesOut.connected (h : a.CarriesOut g p) {connHandle : UInt16}
    (hconn : connHandle ≠ bleConnHandleInvalid) :
    (a.bleEvtDispatch g (.connected connHandle)).CarriesOut g p.attach :=
  { h with
    attached := iff_of_true rfl hconn
    handle := rfl
    shown := by
      rintro st ⟨⟩
      rw [← h.slot]
      exact getLast?_updateStatusService
        (a := { a with
          mStatusService := { a.mStatusService with connHandle := connHandle }
          mConnHandle := connHandle
          sent := [] }) hconn }

/-- A disconnection detaches the peer. -/
theorem CarriesOut.disconnected (h : a.CarriesOut g p) :
    (a.bleEvtDispatch g .disconnected).CarriesOut g p.detach :=
  { h with
    attached := by simp [Publisher.detach, App.bleEvtDispatch, onBleEvt]
    handle := rfl
    shown := by rintro st ⟨⟩ }

/-- Every event of the application is an event of the publisher or changes nothing. -/
theorem CarriesOut.step (h : a.CarriesOut g p) (e : AppEvent) :
    (a.step g e).CarriesOut g p ∨ ∃ ev, (a.step g e).CarriesOut g (p.step ev) := by
  cases e with
  | mainStep => exact .inr ⟨.advance, h.mainStep⟩
  | callback st => exact .inr ⟨.offer st, h.controllerCb st⟩
  | ble evt =>
      cases evt with
      | connected connHandle =>
          by_cases hconn : connHandle = bleConnHandleInvalid
          · -- the invalid handle in place of a connection is a disconnection
            subst hconn
            exact .inr ⟨.detach, h.disconnected⟩
          · exact .inr ⟨.attach, h.connected hconn⟩
      | disconnected => exact .inr ⟨.detach, h.disconnected⟩
      | write e => exact .inl h
      | other => exact .inl h

/-- **The application refines the publisher.** -/
def mailbox (g : Geometry) :
    Machine.Simulation (appMachine g) (Publisher.machine ControllerState) where
  rel := CarriesOut g
  init := by
    rintro _ ⟨d, valueHandle, st, hd, rfl⟩
    exact ⟨_, ⟨st, rfl⟩, carriesOut_start hd valueHandle st⟩
  step := by
    rintro a e _ p h ⟨⟩
    rcases h.step e with h' | ⟨ev, h'⟩
    · exact ⟨[], p, rfl, h'⟩
    · exact ⟨[ev], p.step ev, rfl, h'⟩

end App

/-! ## Published state is consistent -/

/-- With the flag clear, the flash holds the slot's position and a connected client has been
notified of the slot. -/
theorem App.published_of_clear {g : Geometry} {a : App} (h : (appMachine g).Reachable a)
    (hflag : a.ctrlStateChanged = 0x00) :
    a.m45pe.chip.position = a.ctrlState.position ∧
      (a.mConnHandle ≠ bleConnHandleInvalid → ∃ hvx, a.sent.getLast? = some hvx ∧
        hvx.connHandle = a.mConnHandle ∧ hvx.data = encodeState g a.ctrlState) := by
  obtain ⟨p, hp, hrel⟩ := (App.mailbox g).reachable h
  have hrel : a.CarriesOut g p := hrel
  have hcons := Publisher.machine_consistent hp
  have hempty : p.full = false := by
    cases hf : p.full with
    | true => rw [hrel.flag, hf] at hflag; exact absurd hflag (by decide)
    | false => rfl
  rw [hrel.slot]
  refine ⟨hrel.stored _ (hcons.stored_of_empty hempty), fun hconn => ?_⟩
  exact hrel.shown _ (hcons.shown_of_empty hempty (hrel.attached.mpr hconn))

/-- The positions written and the states of the status updates are those of the callbacks accepted, in
order. -/
theorem App.published_in_order {g : Geometry} {a : App} (h : (appMachine g).Reachable a) :
    ∃ sts shown : List ControllerState, sts.Sublist a.callbacks ∧
      a.flashLog <+: sts.map (·.position) ∧ shown <+: sts ∧
      List.Forall₂ (Notifies g a.mStatusService.valueHandle) a.notifyLog shown := by
  obtain ⟨p, hp, hrel⟩ := (App.mailbox g).reachable h
  have hrel : a.CarriesOut g p := hrel
  have hcons := Publisher.machine_consistent hp
  refine ⟨p.accepted, p.shows, ?_, ?_, hcons.shows_prefix, hrel.shows⟩
  · rw [hrel.offered]
    exact hcons.accepted
  · rw [hrel.stores]
    exact hcons.stores_prefix.map _

/-- **Published state is consistent.** In every interleaving of main-loop steps, callbacks with
arbitrary states, connects and disconnects after `on_init_finished`: while the flag is set no step
changes the slot; with the flag clear, which it is only after a publication, the flash holds the
slot's position and the last notification on the current connection is the slot's; and the `i`-th
flash write and the `i`-th status update of the main loop are of one and the same callback, the
callbacks published being taken in order, and a status update hands the state over exactly if a peer
is connected at that moment. -/
theorem published_consistent {g : Geometry} {a : App} (h : (appMachine g).Reachable a) :
    (a.ctrlStateChanged = 0x01 →
      ∀ e a', (appMachine g).step a e = some a' → a'.ctrlState = a.ctrlState) ∧
    (a.ctrlStateChanged = 0x00 →
      a.m45pe.chip.position = a.ctrlState.position ∧
        (a.mConnHandle ≠ bleConnHandleInvalid → ∃ hvx, a.sent.getLast? = some hvx ∧
          hvx.connHandle = a.mConnHandle ∧ hvx.data = encodeState g a.ctrlState)) ∧
    ∃ sts shown : List ControllerState, sts.Sublist a.callbacks ∧
      a.flashLog <+: sts.map (·.position) ∧ shown <+: sts ∧
      List.Forall₂ (Notifies g a.mStatusService.valueHandle) a.notifyLog shown := by
  obtain ⟨p, hp, hrel⟩ := (App.mailbox g).reachable h
  have hrel : a.CarriesOut g p := hrel
  refine ⟨?_, App.published_of_clear h, App.published_in_order h⟩
  rintro hflag e _ ⟨⟩
  have hfull : p.full = true := by
    cases hf : p.full with
    | true => rfl
    | false => rw [hrel.flag, hf] at hflag; exact absurd hflag (by decide)
  rcases hrel.step e with h' | ⟨ev, h'⟩
  · rw [h'.slot, hrel.slot]
  · rw [h'.slot, hrel.slot, Publisher.slot_step_of_full hfull]

/-- A client that connects between the test of the flag and the flash write: after the iteration
the flash and the client have the state of the first callback. -/
theorem published_consistent_connect :
    ∃ a, (appMachine .shipped).run
        ((App.beforeInitFinished (.m45Init (.powerUp ⟨fun _ => 0, false, fun _ => 0⟩)) 14).controllerCb
          ⟨12, 40, .up, .exact⟩)
        [.mainStep, .ble (.connected 5), .mainStep, .callback ⟨13, 40, .up, .exact⟩, .mainStep,
          .mainStep] = some a ∧
      a.m45pe.chip.position = 12 ∧ a.ctrlState.position = 12 ∧
      ∃ hvx, a.sent.getLast? = some hvx ∧ hvx.connHandle = a.mConnHandle ∧
        hvx.data = encodeState .shipped a.ctrlState := by
  refine ⟨_, rfl, ?_⟩
  have h := (published_consistent (g := .shipped)
    ⟨_, [.mainStep, .ble (.connected 5), .mainStep, .callback ⟨13, 40, .up, .exact⟩, .mainStep,
      .mainStep], ⟨.m45Init (.powerUp ⟨fun _ => 0, false, fun _ => 0⟩), 14, ⟨12, 40, .up, .exact⟩, rfl,
        rfl⟩, rfl⟩).2.1 rfl
  exact ⟨h.1, rfl, h.2 (by decide)⟩

end Acromegaly
