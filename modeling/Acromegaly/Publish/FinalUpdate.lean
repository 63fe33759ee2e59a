import Acromegaly.Motion.Parts
import Acromegaly.Publish.Mailbox

/-!
# Which update is published last

`controller_cb` drops a callback that finds the mailbox full, and nobody repeats it. So the state
published last need not be the controller's: the callback that ended a move may be one of those
dropped (`not_forall_final_published`). It is the controller's if some handler has found the mailbox empty
since the controller's state last changed (`final_published`).

All calls of `m_cb` within one handler carry the state the handler leaves behind
(`Controller.Reports`), so it does not matter that only the first of them is accepted.
-/

namespace Acromegaly

open Found

namespace Controller

/-- A handler has called `m_cb` any number of times, each time with the state it leaves behind, and
at least once if it has changed the state. -/
def Reports (c c' : Controller) : Prop :=
  ∃ n, c'.cbCalls = c.cbCalls ++ List.replicate n c'.mState ∧ (n = 0 → c'.mState = c.mState)

theorem Reports.refl (c : Controller) : c.Reports c := ⟨0, by simp, fun _ => rfl⟩

theorem Regular.command_reports {c : Controller} (h : c.Regular) (cmd : Command) :
    c.Reports (c.command cmd) := by
  rcases h.command_cases cmd with heq | ⟨t, ty, heq⟩
  · rw [heq]
    exact .refl c
  · rw [heq]
    exact ⟨1, rfl, by simp⟩

theorem Regular.tick_reports {c : Controller} (h : c.Regular) (hrun : c.timerRunning = true)
    (r : UInt32) : c.Reports (c.timerTimeoutHandler r) := by
  rcases h.tick_cases hrun r with ⟨-, -, heq⟩ | ⟨-, -, heq⟩ | ⟨-, -, heq⟩ | ⟨-, -, heq⟩
  · rw [heq]; exact ⟨2, rfl, by simp⟩
  · rw [heq]; exact ⟨1, rfl, by simp⟩
  · rw [heq]; exact ⟨1, rfl, by simp⟩
  · rw [heq]; exact ⟨2, rfl, by simp⟩

theorem register_reports (position : Int32) (inPinState : UInt32) :
    (controllerInit position inPinState).Reports
      (controllerInit position inPinState).controllerRegisterCb := by
  refine ⟨1, ?_, by simp⟩
  unfold controllerRegisterCb
  rw [controllerCallCb_of_mCb rfl]
  rfl

end Controller

namespace Firmware

/-- Calls with one and the same state fill an empty mailbox with it and leave a full one alone. -/
theorem ctrlState_foldl_replicate (a : App) (st : ControllerState) (n : ℕ) :
    ((List.replicate n st).foldl (fun a state => a.controllerCb state) a).ctrlState =
      if n ≠ 0 ∧ a.ctrlStateChanged = 0x00 then st else a.ctrlState := by
  induction n generalizing a with
  | zero => simp
  | succ n ih =>
      rw [List.replicate_succ, List.foldl_cons, ih]
      by_cases hflag : a.ctrlStateChanged = 0x00
      · simp [App.controllerCb, hflag]
      · simp [App.controllerCb, hflag]

/-- The mailbox holds the controller's state whenever the history says that it has caught up. -/
def Current (w : Firmware) : Prop := w.caughtUp = true → w.app.ctrlState = w.controller.mState

theorem Current.deliver {w : Firmware} (h : w.Current) {c : Controller}
    (hc : w.controller.Reports c) : (w.deliver c).Current := by
  obtain ⟨n, hcalls, hsame⟩ := hc
  have hdrop : c.cbCalls.drop w.controller.cbCalls.length = List.replicate n c.mState := by
    rw [hcalls, List.drop_left]
  intro hcaught
  simp only [Firmware.deliver, hdrop] at hcaught ⊢
  rw [ctrlState_foldl_replicate]
  by_cases htaken : n ≠ 0 ∧ w.app.ctrlStateChanged = 0x00
  · rw [if_pos htaken]
  · rw [if_neg htaken]
    have hn : ¬(List.replicate n c.mState ≠ [] ∧ w.app.ctrlStateChanged = 0x00) := by
      rwa [Ne, List.replicate_eq_nil_iff]
    rw [if_neg hn, Bool.and_eq_true, decide_eq_true_eq] at hcaught
    rw [h hcaught.1, hcaught.2]

variable {g : Geometry}

/-- Neither the main loop nor the BLE handlers write the mailbox. -/
theorem ctrlState_mainStep (a : App) : (a.mainStep g).ctrlState = a.ctrlState := by
  unfold App.mainStep
  split <;> rfl

theorem ctrlState_bleEvtDispatch (a : App) (evt : BleEvt) :
    (a.bleEvtDispatch g evt).ctrlState = a.ctrlState := by
  cases evt <;> rfl

/-- What a BLE event makes the controller report. -/
theorem bleCtrlServiceOnBleEvt_reports {c : Controller} (h : c.Regular) (svc : CtrlService)
    (evt : BleEvt) : c.Reports (bleCtrlServiceOnBleEvt g evt svc c).2 := by
  cases evt with
  | connected connHandle => exact .refl c
  | disconnected => exact .refl c
  | other => exact .refl c
  | write e =>
      show c.Reports (bleCtrlServiceOnWrite g svc e c)
      rw [bleCtrlServiceOnWrite_eq]
      cases e.command? g svc with
      | none => exact .refl c
      | some cmd => exact h.command_reports cmd

theorem Current.step {w w' : Firmware} (h : w.Current) (hreg : w.controller.Regular)
    {e : FirmwareEvent} (hstep : (firmwareMachine g).step w e = some w') : w'.Current := by
  cases e with
  | mainStep =>
      cases hstep
      intro hcaught
      exact (ctrlState_mainStep w.app).trans (h hcaught)
  | tick r =>
      obtain ⟨hrun, rfl⟩ := (step_tick_eq_some g).mp hstep
      exact h.deliver (hreg.tick_reports hrun r)
  | ble evt =>
      cases hstep
      have hw : { w with
          mCtrlService := (bleCtrlServiceOnBleEvt g evt w.mCtrlService w.controller).1 }.Current := h
      have hdel := hw.deliver (bleCtrlServiceOnBleEvt_reports (g := g) hreg w.mCtrlService evt)
      intro hcaught
      exact (ctrlState_bleEvtDispatch _ evt).trans (hdel hcaught)

theorem boot_current (chip : M45peChip) (inPinState : UInt32) (ctrlHandle statusHandle : UInt16) :
    (boot chip inPinState ctrlHandle statusHandle).Current := by
  have hinit := (systemInit_eq (d := (M45pe.powerUp chip).m45Init) rfl inPinState).2.2
  unfold boot
  simp only [hinit]
  apply Current.deliver
  · intro hcaught
    cases hcaught
  · exact Controller.register_reports _ _

theorem reachable_current {w : Firmware} (h : (firmwareMachine g).Reachable w) : w.Current := by
  refine h.induct ?_ ?_
  · rintro _ ⟨chip, inPinState, ctrlHandle, statusHandle, rfl⟩
    exact boot_current chip inPinState ctrlHandle statusHandle
  · intro w e w' hw hcur hstep
    exact hcur.step (reachable_regular hw) hstep

/-! ## The last update -/

/-- **What is published last.** Under every interleaving of main-loop steps, timer ticks and BLE
events after boot: with the flag clear, if some handler has found it clear since the controller's
state last changed, then the mailbox holds the controller's state and the flash its position.
The timer need not have stopped for this; a clear flag means that the loop is outside its body. -/
theorem final_published {w : Firmware} (h : (firmwareMachine g).Reachable w)
    (hcaught : w.caughtUp = true) (hflag : w.app.ctrlStateChanged = 0x00) :
    w.app.ctrlState = w.controller.mState ∧
      w.app.m45pe.chip.position = w.controller.mState.position := by
  have hcur : w.app.ctrlState = w.controller.mState := reachable_current h hcaught
  obtain ⟨a, ha, hrel⟩ := (appPart g).reachable h
  have hrel : w.app = a := hrel
  rw [← hrel] at ha
  refine ⟨hcur, ?_⟩
  rw [(App.published_of_clear ha hflag).1, hcur]

/-- A stop that arrives between two iterations of the main loop is published by the second. -/
theorem final_published_stop :
    ∃ w, (firmwareMachine .shipped).run bootAtZero
        (List.replicate 5 .mainStep ++ .ble (.write (.ofBytes 7 [0xAA])) ::
          List.replicate 4 .mainStep) = some w ∧
      w.app.ctrlState = w.controller.mState ∧
      w.app.m45pe.chip.position = w.controller.mState.position :=
  ⟨_, rfl, final_published (g := .shipped)
    ⟨bootAtZero, List.replicate 5 .mainStep ++ .ble (.write (.ofBytes 7 [0xAA])) ::
      List.replicate 4 .mainStep, ⟨_, _, _, _, rfl⟩, rfl⟩ rfl rfl⟩

/-- A boot at position 820, above the upper limit. -/
def bootAbove : Firmware :=
  boot ⟨store (fun _ => 0) flashCtrlPosKey.toNat (int16Bytes 820), false, fun _ => 0⟩ 0 7 14

/-- The desk is sent to the top, where it stands already. The main loop keeps up with 24 ticks; the
one after them, the idle timeout, falls between its test of the flag and the flash write, and the
corrected position is not published. -/
def missedTimeout : List FirmwareEvent :=
  List.replicate 5 .mainStep ++ .ble (.write (.ofBytes 7 [0x88, 0xFF])) ::
    ((List.replicate 24 (List.replicate 5 .mainStep ++ [.tick 0])).flatten ++
      .mainStep :: .tick 0 :: List.replicate 4 .mainStep)

theorem not_forall_final_published :
    ¬∀ (g : Geometry) (w : Firmware), (firmwareMachine g).Reachable w →
      w.controller.timerRunning = false → w.app.ctrlStateChanged = 0x00 → ¬w.app.phase.InBody →
      w.app.ctrlState = w.controller.mState ∧
        w.app.m45pe.chip.position = w.controller.mState.position := by
  intro h
  have hend : ((firmwareMachine .shipped).run bootAbove missedTimeout).map (fun w =>
      (w.controller.timerRunning, w.app.ctrlStateChanged, w.app.phase, w.app.ctrlState.position,
        w.controller.mState.position)) = some (false, 0x00, .test, 820, 816) := by decide +kernel
  obtain ⟨w, hw, hend⟩ := Option.map_eq_some_iff.mp hend
  simp only [Prod.mk.injEq] at hend
  obtain ⟨htimer, hflag, hphase, hold, hnew⟩ := hend
  have hreach : (firmwareMachine .shipped).Reachable w := ⟨_, _, ⟨_, _, _, _, rfl⟩, hw⟩
  have hstate := (h .shipped w hreach htimer hflag (by rw [hphase]; exact id)).1
  rw [hstate, hnew] at hold
  exact absurd hold (by decide)

end Firmware

end Acromegaly
