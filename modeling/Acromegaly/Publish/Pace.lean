import Acromegaly.Found.Lockstep
import Acromegaly.Motion.Projection
import Acromegaly.Publish.Interrupted

/-!
# The pace of publication

How soon the main loop publishes and how often it writes. Only its own steps count: whatever the
handlers do in between, a state in the mailbox is written and handed over within four of them
(`published_within`), and once the handlers have nothing to report five of them are enough for
flash and client to be up to date (`settles`). The flash is written at most once for each event the
controller takes notice of, and at most every fifth step (`flash_wear`).

The first two are read off the publisher (`turns`: a step of the main loop is a step of the
consumer, and nothing else is); for the third a potential is enough.
-/

namespace Acromegaly

open Found

/-! ## Turns -/

/-- A step of the main loop. -/
def AppEvent.turn : AppEvent → Option Unit
  | .mainStep => some ()
  | _ => none

/-- A step of the main loop. -/
def FirmwareEvent.turn : FirmwareEvent → Option Unit
  | .mainStep => some ()
  | _ => none

/-- The steps of the main loop among some events. -/
def mainSteps (es : List FirmwareEvent) : ℕ := (es.filterMap FirmwareEvent.turn).length

/-- The application takes its turns as the publisher does. -/
def App.turns (g : Geometry) : Machine.Refinement (appMachine g)
    (Publisher.machine ControllerState) AppEvent.turn Publisher.turn where
  rel a p := p.Consistent ∧ a.CarriesOut g p
  step := by
    rintro a e _ p ⟨hcons, h⟩ ⟨⟩
    cases e with
    | mainStep => exact ⟨[.advance], p.advance, rfl, rfl, hcons.advance, h.mainStep⟩
    | callback st =>
        exact ⟨[.offer st], p.offer st, rfl, rfl, hcons.step (.offer st), h.controllerCb st⟩
    | ble evt =>
        cases evt with
        | connected connHandle =>
            by_cases hconn : connHandle = bleConnHandleInvalid
            · subst hconn
              exact ⟨[.detach], p.detach, rfl, rfl, hcons.detach, h.disconnected⟩
            · exact ⟨[.attach], p.attach, rfl, rfl, hcons.attach, h.connected hconn⟩
        | disconnected => exact ⟨[.detach], p.detach, rfl, rfl, hcons.detach, h.disconnected⟩
        | write e => exact ⟨[], p, rfl, rfl, hcons, h⟩
        | other => exact ⟨[], p, rfl, rfl, hcons, h⟩

namespace App

end App

/-- Several callbacks are several offers. -/
theorem App.CarriesOut.callbacks {g : Geometry} {a : App} {p : Publisher ControllerState}
    (h : a.CarriesOut g p) (calls : List ControllerState) :
    (calls.foldl (fun a st => a.controllerCb st) a).CarriesOut g (p.offers calls) := by
  induction calls generalizing a p with
  | nil => exact h
  | cons st calls ih => exact ih (h.controllerCb st)

namespace Firmware

variable {g : Geometry}

theorem filterMap_turn_callbacks (calls : List ControllerState) :
    (calls.map AppEvent.callback).filterMap AppEvent.turn = [] := by
  induction calls with
  | nil => rfl
  | cons st calls ih => exact ih

variable (g) in
/-- The firmware takes its turns as its application does. -/
def appTurns : Machine.Refinement (firmwareMachine g) (appMachine g) FirmwareEvent.turn
    AppEvent.turn where
  rel w a := w.app = a
  step := by
    rintro w e w' _ rfl hstep
    cases e with
    | mainStep =>
        cases hstep
        exact ⟨[.mainStep], _, rfl, rfl, rfl⟩
    | tick r =>
        obtain ⟨-, rfl⟩ := (step_tick_eq_some g).mp hstep
        exact ⟨_, _, run_callbacks g w.app _, filterMap_turn_callbacks _, rfl⟩
    | ble evt =>
        cases hstep
        let c := (bleCtrlServiceOnBleEvt g evt w.mCtrlService w.controller).2
        let calls := c.cbCalls.drop w.controller.cbCalls.length
        have hcalls := run_callbacks g w.app calls
        refine ⟨calls.map .callback ++ [.ble evt], _,
          Machine.run_append_eq_some.mpr ⟨_, hcalls, Machine.run_singleton _ (AppEvent.ble evt)⟩,
          ?_, rfl⟩
        rw [List.filterMap_append, filterMap_turn_callbacks]
        rfl

variable (g) in
/-- The firmware takes its turns as a publisher does. -/
def turns : Machine.Refinement (firmwareMachine g) (Publisher.machine ControllerState)
    FirmwareEvent.turn Publisher.turn := (appTurns g).comp (App.turns g)

/-- A run of the firmware from a publisher it carries out. -/
theorem run_turns {w w' : Firmware} {p : Publisher ControllerState}
    (hp : (Publisher.machine ControllerState).Reachable p) (hw : w.app.CarriesOut g p)
    {es : List FirmwareEvent} (hrun : (firmwareMachine g).run w es = some w') :
    ∃ fs p', (Publisher.machine ControllerState).run p fs = some p' ∧
      (fs.filterMap Publisher.turn).length = mainSteps es ∧ w'.app.CarriesOut g p' := by
  obtain ⟨fs, p', hfs, hturns, a', ha', -, hcarries⟩ :=
    (turns g).run ⟨w.app, rfl, Publisher.machine_consistent hp, hw⟩ hrun
  have ha' : w'.app = a' := ha'
  refine ⟨fs, p', hfs, congrArg List.length hturns, ?_⟩
  rw [ha']
  exact hcarries

/-! ## How soon -/

/-- No event concerns the controller. -/
def Quiet (g : Geometry) (valueHandle : UInt16) (es : List FirmwareEvent) : Prop :=
  ∀ e ∈ es, e.ctrlEvent g valueHandle = none

theorem callbacks_mainStep (a : App) : (a.mainStep g).callbacks = a.callbacks := by
  unfold App.mainStep
  split <;> rfl

theorem callbacks_bleEvtDispatch (a : App) (evt : BleEvt) :
    (a.bleEvtDispatch g evt).callbacks = a.callbacks := by
  cases evt <;> rfl

/-- A handler that leaves the controller alone reports nothing. -/
theorem deliver_self (w : Firmware) : (w.deliver w.controller).app = w.app := by
  unfold deliver
  simp

/-- An event that does not concern the controller leaves it alone, and the callbacks with it. -/
theorem quiet_step {w w' : Firmware} {e : FirmwareEvent}
    (hquiet : e.ctrlEvent g w.mCtrlService.valueHandle = none)
    (hstep : (firmwareMachine g).step w e = some w') :
    w'.controller = w.controller ∧ w'.app.callbacks = w.app.callbacks := by
  have hcontroller : w'.controller = w.controller := by
    have hmap := map_controller_step (g := g) w e
    rw [hquiet, hstep] at hmap
    exact Option.some.inj hmap
  refine ⟨hcontroller, ?_⟩
  cases e with
  | mainStep =>
      cases hstep
      exact callbacks_mainStep w.app
  | tick r => cases hquiet
  | ble evt =>
      cases hstep
      let served := bleCtrlServiceOnBleEvt g evt w.mCtrlService w.controller
      have hsame : served.2 = w.controller := hcontroller
      show (App.bleEvtDispatch g evt
        (deliver served.2 { w with mCtrlService := served.1 }).app).callbacks = _
      rw [callbacks_bleEvtDispatch, hsame, deliver_self { w with mCtrlService := served.1 }]

theorem quiet_run {w w' : Firmware} {es : List FirmwareEvent}
    (hquiet : Quiet g w.mCtrlService.valueHandle es)
    (hrun : (firmwareMachine g).run w es = some w') :
    w'.controller = w.controller ∧ w'.app.callbacks = w.app.callbacks := by
  induction es generalizing w with
  | nil =>
      cases hrun
      exact ⟨rfl, rfl⟩
  | cons e es ih =>
      obtain ⟨w₁, hstep, hrest⟩ := Machine.run_cons_eq_some.mp hrun
      obtain ⟨hcontroller, hcallbacks⟩ := quiet_step (hquiet e List.mem_cons_self) hstep
      have hlater : Quiet g w₁.mCtrlService.valueHandle es := by
        rw [valueHandle_step hstep]
        exact fun e' he' => hquiet e' (List.mem_cons_of_mem e he')
      obtain ⟨hcontroller', hcallbacks'⟩ := ih hlater hrest
      exact ⟨hcontroller'.trans hcontroller, hcallbacks'.trans hcallbacks⟩

/-- **What is left settles.** From any reachable state, in a run in which nothing concerns the
controller (connects, disconnects and other writes may come in between): after five steps of the main
loop the flag is clear, the flash holds the position of what the mailbox held before them, and if a
client is connected the last notification it was sent is of that state. -/
theorem settles {w w' : Firmware} (h : (firmwareMachine g).Reachable w) {es : List FirmwareEvent}
    (hquiet : Quiet g w.mCtrlService.valueHandle es)
    (hrun : (firmwareMachine g).run w es = some w') (hsteps : 5 ≤ mainSteps es) :
    w'.controller = w.controller ∧ w'.app.ctrlStateChanged = 0x00 ∧
      w'.app.ctrlState = w.app.ctrlState ∧
      w'.app.m45pe.chip.position = w.app.ctrlState.position ∧
      (w'.app.mConnHandle ≠ bleConnHandleInvalid → ∃ hvx, w'.app.sent.getLast? = some hvx ∧
        hvx.connHandle = w'.app.mConnHandle ∧ hvx.data = encodeState g w.app.ctrlState) := by
  obtain ⟨hcontroller, hcallbacks⟩ := quiet_run hquiet hrun
  obtain ⟨p, hp, hw⟩ := reachable_carriesOut h
  obtain ⟨fs, p', hfs, hturns, hw'⟩ := run_turns hp hw hrun
  have hoffered : p'.offered = p.offered := by rw [← hw'.offered, hcallbacks, hw.offered]
  have hdue : p.due ≤ (fs.filterMap Publisher.turn).length := by
    have hle := p.due_le
    omega
  obtain ⟨hempty, hslot⟩ := Publisher.cleared_within hfs hoffered hdue
  have hflag : w'.app.ctrlStateChanged = 0x00 := by
    rw [hw'.flag, hempty]
    rfl
  have hstate : w'.app.ctrlState = w.app.ctrlState := by rw [hw'.slot, hslot, hw.slot]
  obtain ⟨a, ha, hrel⟩ := (appPart g).reachable (h.run hrun)
  have hrel : w'.app = a := hrel
  rw [← hrel] at ha
  obtain ⟨hflash, hsent⟩ := App.published_of_clear ha hflag
  rw [hstate] at hflash hsent
  exact ⟨hcontroller, hflag, hstate, hflash, hsent⟩

/-- A connected client, and a mailbox that still holds the state from boot. -/
def connectedAtBoot : List FirmwareEvent :=
  [.mainStep, .ble (.connected 5), .mainStep, .ble .other, .mainStep, .mainStep, .mainStep]

theorem settles_boot :
    ∃ w', (firmwareMachine .shipped).run bootAtZero connectedAtBoot = some w' ∧
      w'.app.ctrlStateChanged = 0x00 ∧ w'.app.mConnHandle = 5 ∧
      w'.app.m45pe.chip.position = bootAtZero.app.ctrlState.position := by
  have hquiet : Quiet .shipped bootAtZero.mCtrlService.valueHandle connectedAtBoot := by
    intro e he
    simp only [connectedAtBoot, List.mem_cons, List.not_mem_nil, or_false] at he
    rcases he with rfl | rfl | rfl | rfl | rfl | rfl | rfl <;> rfl
  have hrun : ∃ w', (firmwareMachine .shipped).run bootAtZero connectedAtBoot = some w' ∧
      w'.app.mConnHandle = 5 := ⟨_, rfl, rfl⟩
  obtain ⟨w', hw', hconn⟩ := hrun
  have hsettled := settles (.init ⟨_, _, _, _, rfl⟩) hquiet hw' (by decide)
  exact ⟨w', hw', hsettled.2.1, hconn, hsettled.2.2.2.1⟩

/-! ## How often -/

/-- A flash write is certain to come without a further callback. -/
def WriteAhead (a : App) : Prop :=
  a.phase = .flashWrite ∨ a.ctrlStateChanged = 0x01 ∧ (a.phase = .test ∨ a.phase = .powerManage)

instance (a : App) : Decidable (WriteAhead a) := by
  unfold WriteAhead
  infer_instance

/-- The flash writes there have been, and the one to come. -/
def writes (a : App) : ℕ := a.flashLog.length + if WriteAhead a then 1 else 0

/-- The steps of the main loop since the last flash write, at least. -/
def sinceWrite : LoopPhase → ℕ
  | .statusUpdate => 0
  | .clearFlag => 1
  | .powerManage => 2
  | .test => 3
  | .flashWrite => 4

/-- A step of the main loop makes no further write necessary, and a write takes a round of five. -/
theorem writes_mainStep (a : App) :
    writes (a.mainStep g) ≤ writes a ∧
      5 * (a.mainStep g).flashLog.length + sinceWrite (a.mainStep g).phase ≤
        5 * a.flashLog.length + sinceWrite a.phase + 1 := by
  unfold writes
  cases hphase : a.phase with
  | test =>
      have hstep : a.mainStep g =
          { a with phase := if a.ctrlStateChanged = 0x01 then .flashWrite else .powerManage } := by
        simp only [App.mainStep, hphase]
      rw [hstep]
      by_cases hflag : a.ctrlStateChanged = 0x01
      · simp [WriteAhead, hphase, hflag, sinceWrite]
      · simp [WriteAhead, hphase, hflag, sinceWrite]
  | flashWrite =>
      have hlog : (a.mainStep g).flashLog = a.flashLog ++ [a.ctrlState.position] ∧
          (a.mainStep g).phase = .statusUpdate := by
        simp only [App.mainStep, hphase, and_self]
      simp only [WriteAhead, hlog, hphase, List.length_append, List.length_singleton, sinceWrite]
      simp
      omega
  | statusUpdate =>
      have hlog : (a.mainStep g).flashLog = a.flashLog ∧ (a.mainStep g).phase = .clearFlag := by
        simp only [App.mainStep, hphase, App.updateStatusService, and_self]
      simp [WriteAhead, hlog, hphase, sinceWrite]
  | clearFlag =>
      have hstep : a.mainStep g = { a with ctrlStateChanged := 0x00, phase := .powerManage } := by
        simp only [App.mainStep, hphase]
      rw [hstep]
      simp [WriteAhead, hphase, sinceWrite]
  | powerManage =>
      have hstep : a.mainStep g = { a with phase := .test } := by
        simp only [App.mainStep, hphase]
      rw [hstep]
      simp [WriteAhead, hphase, sinceWrite]

/-- The events the controller takes notice of. -/
def noticed (g : Geometry) (valueHandle : UInt16) (es : List FirmwareEvent) : ℕ :=
  (es.filterMap (FirmwareEvent.ctrlEvent g valueHandle)).length

/-- An interrupt writes nothing; it makes a write necessary only if the controller takes notice
of it. -/
theorem writes_interrupt {w w' : Firmware} {e : FirmwareEvent} (he : e ≠ .mainStep)
    (hstep : (firmwareMachine g).step w e = some w') :
    writes w'.app ≤ writes w.app + noticed g w.mCtrlService.valueHandle [e] := by
  have hsame := undisturbed_step he hstep
  cases hevent : e.ctrlEvent g w.mCtrlService.valueHandle with
  | some ev =>
      have hone : noticed g w.mCtrlService.valueHandle [e] = 1 := by
        unfold noticed
        rw [List.filterMap_cons_some hevent]
        rfl
      unfold writes
      rw [hsame.flashLog, hone]
      split_ifs <;> omega
  | none =>
      have hflag : w'.app.ctrlStateChanged = w.app.ctrlStateChanged := by
        cases e with
        | mainStep => exact absurd rfl he
        | tick r => cases hevent
        | ble evt =>
            have hcontroller := (quiet_step hevent hstep).1
            cases hstep
            let served := bleCtrlServiceOnBleEvt g evt w.mCtrlService w.controller
            have hserved : served.2 = w.controller := hcontroller
            show (App.bleEvtDispatch g evt
              (deliver served.2 { w with mCtrlService := served.1 }).app).ctrlStateChanged = _
            rw [hserved, deliver_self { w with mCtrlService := served.1 }]
            cases evt <;> rfl
      have hahead : WriteAhead w'.app ↔ WriteAhead w.app := by
        unfold WriteAhead
        rw [hsame.phase, hflag]
      unfold writes
      simp only [hahead, hsame.flashLog]
      exact Nat.le_add_right _ _

theorem writes_step {w w' : Firmware} {e : FirmwareEvent}
    (hstep : (firmwareMachine g).step w e = some w') :
    writes w'.app ≤ writes w.app + noticed g w.mCtrlService.valueHandle [e] ∧
      5 * w'.app.flashLog.length + sinceWrite w'.app.phase ≤
        5 * w.app.flashLog.length + sinceWrite w.app.phase + mainSteps [e] := by
  by_cases he : e = .mainStep
  · subst he
    cases hstep
    obtain ⟨hwrites, hround⟩ := writes_mainStep (g := g) w.app
    exact ⟨hwrites, hround⟩
  · have hsame := undisturbed_step he hstep
    refine ⟨writes_interrupt he hstep, ?_⟩
    rw [hsame.flashLog, hsame.phase]
    exact Nat.le_add_right _ _

theorem writes_run {w w' : Firmware} {es : List FirmwareEvent}
    (hrun : (firmwareMachine g).run w es = some w') :
    writes w'.app ≤ writes w.app + noticed g w.mCtrlService.valueHandle es ∧
      5 * w'.app.flashLog.length + sinceWrite w'.app.phase ≤
        5 * w.app.flashLog.length + sinceWrite w.app.phase + mainSteps es := by
  induction es generalizing w with
  | nil =>
      cases hrun
      exact ⟨Nat.le_refl _, Nat.le_refl _⟩
  | cons e es ih =>
      obtain ⟨w₁, hstep, hrest⟩ := Machine.run_cons_eq_some.mp hrun
      obtain ⟨hwrites, hround⟩ := writes_step hstep
      obtain ⟨hwrites', hround'⟩ := ih hrest
      rw [valueHandle_step hstep] at hwrites'
      have hnoticed : noticed g w.mCtrlService.valueHandle (e :: es) =
          noticed g w.mCtrlService.valueHandle [e] + noticed g w.mCtrlService.valueHandle es := by
        unfold noticed
        rw [← List.singleton_append, List.filterMap_append, List.length_append]
      have hsteps : mainSteps (e :: es) = mainSteps [e] + mainSteps es := by
        unfold mainSteps
        rw [← List.singleton_append, List.filterMap_append, List.length_append]
      rw [hnoticed, hsteps]
      exact ⟨by omega, by omega⟩

/-- **Flash wear.** Over every run from any state, reachable or not: at most one flash write more
than there are ticks and commands, and at most one for every five steps of the main loop, rounded
up. So a desk at rest to which nobody sends a command writes once at most, however long its main
loop runs. -/
theorem flash_wear {w w' : Firmware} {es : List FirmwareEvent}
    (hrun : (firmwareMachine g).run w es = some w') :
    w'.app.flashLog.length ≤
        w.app.flashLog.length + noticed g w.mCtrlService.valueHandle es + 1 ∧
      5 * w'.app.flashLog.length ≤ 5 * w.app.flashLog.length + mainSteps es + 4 := by
  obtain ⟨hwrites, hround⟩ := writes_run hrun
  have hahead : writes w.app ≤ w.app.flashLog.length + 1 := by
    unfold writes
    split_ifs <;> omega
  have hdone : w'.app.flashLog.length ≤ writes w'.app := Nat.le_add_right _ _
  have hsince : sinceWrite w.app.phase ≤ 4 := by
    cases w.app.phase <;> simp [sinceWrite]
  exact ⟨by omega, by omega⟩

/-- Nobody touches a desk that has just booted: one write in twenty steps. -/
theorem flash_wear_untouched :
    ∃ w', (firmwareMachine .shipped).run bootAtZero (List.replicate 20 .mainStep) = some w' ∧
      w'.app.flashLog.length ≤ 1 := by
  have hrun : ∃ w', (firmwareMachine .shipped).run bootAtZero (List.replicate 20 .mainStep) =
      some w' := ⟨_, rfl⟩
  obtain ⟨w', hw'⟩ := hrun
  have hwear := (flash_wear hw').1
  exact ⟨w', hw', hwear⟩

end Firmware

end Acromegaly
