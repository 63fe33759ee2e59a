import Acromegaly.Model.Firmware
import Acromegaly.Motion.Steps

/-!
# The parts of the firmware

Seen from the controller, a run of the firmware is a run of commands and ticks
(`Firmware.controllerPart`); seen from the application, a run of main-loop steps, callbacks and BLE
events (`Firmware.appPart`). What holds of every run of a part holds of the firmware.
-/

namespace Acromegaly

open Found

namespace Firmware

variable (g : Geometry)

/-- A tick of a running timer is the handler and its callbacks. -/
theorem step_tick_eq_some {w w' : Firmware} {r : UInt32} :
    (firmwareMachine g).step w (.tick r) = some w' ↔
      w.controller.timerRunning = true ∧ w.deliver (w.controller.timerTimeoutHandler r) = w' := by
  simp [firmwareMachine, Firmware.step]

/-- What an event does to the controller: nothing, a tick, or a write on the control service. -/
theorem step_controller {w w' : Firmware} {e : FirmwareEvent}
    (hstep : (firmwareMachine g).step w e = some w') :
    ((∀ r, e ≠ .tick r) ∧ (∀ we, e ≠ .ble (.write we)) ∧ w'.controller = w.controller) ∨
    (∃ r, e = .tick r ∧ w.controller.timerRunning = true ∧
      w'.controller = w.controller.timerTimeoutHandler r) ∨
    ∃ we, e = .ble (.write we) ∧
      w'.controller = bleCtrlServiceOnWrite g w.mCtrlService we w.controller := by
  cases e with
  | mainStep =>
      cases hstep
      exact .inl ⟨by simp, by simp, rfl⟩
  | tick r =>
      obtain ⟨hrun, rfl⟩ := (step_tick_eq_some g).mp hstep
      exact .inr (.inl ⟨r, rfl, hrun, rfl⟩)
  | ble evt =>
      cases hstep
      cases evt with
      | connected connHandle => exact .inl ⟨by simp, by simp, rfl⟩
      | disconnected => exact .inl ⟨by simp, by simp, rfl⟩
      | write we => exact .inr (.inr ⟨we, rfl, rfl⟩)
      | other => exact .inl ⟨by simp, by simp, rfl⟩

/-- The controller's part. -/
def controllerPart : Machine.Simulation (firmwareMachine g) controllerMachine where
  rel w c := w.controller = c
  init := by
    rintro _ ⟨chip, inPinState, ctrlHandle, statusHandle, rfl⟩
    exact ⟨_, ⟨chip.position, inPinState, rfl⟩, boot_controller chip inPinState ctrlHandle statusHandle⟩
  step := by
    rintro w e w' _ rfl hstep
    rcases step_controller g hstep with ⟨-, -, h⟩ | ⟨r, -, hrun, h⟩ | ⟨we, -, h⟩
    · exact ⟨[], _, rfl, h⟩
    · exact ⟨[.tick r], _, (Machine.run_singleton _ _).trans (if_pos hrun), h⟩
    · rw [bleCtrlServiceOnWrite_eq] at h
      cases hc : we.command? g w.mCtrlService with
      | none =>
          rw [hc] at h
          exact ⟨[], _, rfl, h⟩
      | some cmd =>
          rw [hc] at h
          exact ⟨[.command cmd], _, rfl, h⟩

/-- Delivered calls are callbacks of the application. -/
theorem run_callbacks (a : App) (calls : List ControllerState) :
    (appMachine g).run a (calls.map .callback) =
      some (calls.foldl (fun a state => a.controllerCb state) a) := by
  induction calls generalizing a with
  | nil => rfl
  | cons st calls ih => exact ih (a.controllerCb st)

/-- The application's part. -/
def appPart : Machine.Simulation (firmwareMachine g) (appMachine g) where
  rel w a := w.app = a
  init := by
    rintro _ ⟨chip, inPinState, ctrlHandle, statusHandle, rfl⟩
    obtain ⟨hdone, -, -⟩ := systemInit_eq (d := (M45pe.powerUp chip).m45Init) rfl inPinState
    exact ⟨_, ⟨_, statusHandle, _, hdone, rfl⟩, rfl⟩
  step := by
    rintro w e w' _ rfl hstep
    cases e with
    | mainStep =>
        cases hstep
        exact ⟨[.mainStep], _, rfl, rfl⟩
    | tick r =>
        obtain ⟨-, rfl⟩ := (step_tick_eq_some g).mp hstep
        exact ⟨_, _, run_callbacks g w.app _, rfl⟩
    | ble evt =>
        cases hstep
        -- the control service comes first, so its callbacks precede the status service
        let c := (bleCtrlServiceOnBleEvt g evt w.mCtrlService w.controller).2
        let calls := c.cbCalls.drop w.controller.cbCalls.length
        have hcalls := run_callbacks g w.app calls
        exact ⟨calls.map .callback ++ [.ble evt], _,
          Machine.run_append_eq_some.mpr ⟨_, hcalls, Machine.run_singleton _ (AppEvent.ble evt)⟩,
          rfl⟩

variable {g}

/-- A reachable firmware's controller is regular. -/
theorem reachable_regular {w : Firmware} (h : (firmwareMachine g).Reachable w) :
    w.controller.Regular := by
  obtain ⟨c, hc, hrel⟩ := (controllerPart g).reachable h
  have hrel : w.controller = c := hrel
  rw [hrel]
  exact controllerMachine_regular hc

end Firmware

end Acromegaly
