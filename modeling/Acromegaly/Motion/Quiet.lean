import Acromegaly.Motion.Parts

/-!
# Off stays off

Only a write of a new target energises the motor or changes its direction. Ticks keep counting
after a stop, in the direction last driven and past any value, but what a tick can do to the pins
is to leave them as they are or to switch them off (`Regular.tick_pins`). So once a stop, the target
or the idle timeout has switched them off, they stay off until the next such write.
-/

namespace Acromegaly

open Found

namespace Controller

/-- A tick of a running timer is the handler. -/
theorem step_tick {c : Controller} (hrun : c.timerRunning = true) (r : UInt32) :
    controllerMachine.step c (.tick r) = some (c.timerTimeoutHandler r) := if_pos hrun

theorem step_tick_eq_some {c c' : Controller} {r : UInt32} :
    controllerMachine.step c (.tick r) = some c' ↔
      c.timerRunning = true ∧ c.timerTimeoutHandler r = c' := by
  simp [controllerMachine, Controller.step]

/-- What every tick preserves is preserved by ticks. -/
theorem Regular.run_ticks {I : Controller → Prop}
    (hI : ∀ x r, x.Regular → I x → x.timerRunning = true → I (x.timerTimeoutHandler r))
    {c c' : Controller} (h : c.Regular) (hc : I c) {rs : List UInt32}
    (hrun : controllerMachine.run c (rs.map .tick) = some c') : c'.Regular ∧ I c' := by
  induction rs generalizing c with
  | nil =>
      cases hrun
      exact ⟨h, hc⟩
  | cons r rs ih =>
      obtain ⟨c₁, hstep, hrest⟩ := Machine.run_cons_eq_some.mp hrun
      obtain ⟨hrunning, rfl⟩ := step_tick_eq_some.mp hstep
      exact ih (h.tick hrunning r) (hI c r h hc hrunning) hrest

/-- A tick leaves the motor as it is or switches it off. -/
theorem Regular.tick_pins {c : Controller} (h : c.Regular) (hrun : c.timerRunning = true)
    (r : UInt32) :
    (c.timerTimeoutHandler r).pins = c.pins ∨ (c.timerTimeoutHandler r).pins = Pins.off := by
  rcases h.tick_cases hrun r with ⟨-, -, heq⟩ | ⟨-, -, heq⟩ | ⟨-, -, heq⟩ | ⟨-, -, heq⟩
  · rw [heq]; exact .inr rfl
  · rw [heq]; exact .inl rfl
  · rw [heq]; exact .inl rfl
  · rw [heq]; exact .inr rfl

/-- A stop switches the motor off. -/
theorem Regular.controllerStop_pins {c : Controller} (h : c.Regular) :
    c.controllerStop.pins = Pins.off := by
  unfold controllerStop
  rw [setTargetPos_eq_aimed h.cb]
  simp [Pins.driving]

/-- With the motor not driven all pins are low. -/
theorem Regular.pins_of_none {c : Controller} (h : c.Regular) (hm : c.mState.movement = .none) :
    c.pins = Pins.off := by
  rw [h.pins, hm]
  rfl

/-- A position that equals the target is not driven from. -/
theorem Regular.movement_of_reached {c : Controller} (h : c.Regular)
    (hp : c.mState.position = c.mState.target) : c.mState.movement = .none := by
  by_contra hm
  have ha := (h.driven hm).2
  rw [hp, aim_eq_none.mpr (.inr rfl)] at ha
  exact hm ha.symm

/-- A tick on which the counter reaches the target ends the move. -/
theorem Regular.tick_pins_of_reached {c : Controller} (h : c.Regular)
    (hrun : c.timerRunning = true) {r : UInt32}
    (hp : (c.timerTimeoutHandler r).mState.position = c.mState.target) :
    (c.timerTimeoutHandler r).pins = Pins.off := by
  rcases h.tick_cases hrun r with ⟨-, -, heq⟩ | ⟨-, hnot, heq⟩ | ⟨-, -, heq⟩ | ⟨-, -, heq⟩
  · rw [heq]; rfl
  · -- the comparison has missed the target, so the target is unset and the motor already off
    rw [heq] at hp ⊢
    have hnext : c.nextPosition = c.mState.target := hp
    apply h.pins_of_none
    by_contra hm
    obtain ⟨hi, ha⟩ := h.driven hm
    apply hnot
    rw [hi, hnext]
    cases hd : c.mState.movement with
    | up => rw [hd] at ha; exact ⟨(aim_eq_up.mp ha).1, Int16.le_refl _⟩
    | down => rw [hd] at ha; exact ⟨(aim_eq_down.mp ha).1, Int16.le_refl _⟩
    | none => exact absurd hd hm
  · rw [heq] at hp ⊢
    exact h.pins_of_none (h.movement_of_reached hp)
  · rw [heq]; rfl

theorem samplePin_mCb {c : Controller} (hcb : c.mCb = true) (r : UInt32) :
    (c.samplePin r).mCb = true := by
  by_cases hr : r = c.mPreviousInpinState
  · subst hr
    rwa [samplePin_of_eq]
  by_cases hp : Passed c.mInertMovement c.mState.target c.nextPosition
  · rwa [samplePin_of_passed hcb hr hp]
  · rwa [samplePin_of_not_passed hr hp]

/-- The idle timeout ends every move. -/
theorem tick_pins_of_stalled {c : Controller} (hcb : c.mCb = true) {r : UInt32}
    (hs : (c.samplePin r).stalled) : (c.timerTimeoutHandler r).pins = Pins.off := by
  unfold timerTimeoutHandler
  rw [superviseIdle_of_stalled (samplePin_mCb hcb r) hs]
  rfl

end Controller

/-! ## In the firmware -/

/-- The event is a control write that sets a new target: set-target or reset. -/
def FirmwareEvent.StartsMove (svc : CtrlService) : FirmwareEvent → Prop
  | .ble (.write e) => e.handle = svc.valueHandle ∧ e.len > 0 ∧
      (e.data 0 = ctrlCommandSetTargetPos ∨ e.data 0 = ctrlCommandReset)
  | _ => False

/-- The event ends a move: a stop, a tick that reaches the target, or the idle timeout. -/
def FirmwareEvent.EndsMove (c : Controller) (svc : CtrlService) : FirmwareEvent → Prop
  | .ble (.write e) => e.handle = svc.valueHandle ∧ e.len > 0 ∧ e.data 0 = ctrlCommandForceStop
  | .tick r => (c.timerTimeoutHandler r).mState.position = c.mState.target ∨ (c.samplePin r).stalled
  | _ => False

namespace Firmware

variable {g : Geometry}

/-- What an event can do to the motor. -/
theorem step_pins {w w' : Firmware} (hreg : w.controller.Regular) {e : FirmwareEvent}
    (hstep : (firmwareMachine g).step w e = some w') :
    w'.controller.pins = w.controller.pins ∨ w'.controller.pins = Pins.off ∨
      e.StartsMove w.mCtrlService := by
  rcases step_controller g hstep with ⟨-, -, h⟩ | ⟨r, -, hrun, h⟩ | ⟨we, rfl, h⟩
  · rw [h]
    exact .inl rfl
  · rw [h]
    rcases hreg.tick_pins hrun r with hp | hp
    · exact .inl hp
    · exact .inr (.inl hp)
  · rw [h]
    unfold bleCtrlServiceOnWrite
    split_ifs with hh h₁ h₂ h₃
    · exact .inr (.inl hreg.controllerStop_pins)
    · exact .inr (.inr ⟨hh.1, hh.2, .inl h₂⟩)
    · exact .inr (.inr ⟨hh.1, hh.2, .inr h₃⟩)
    · exact .inl rfl
    · exact .inl rfl

/-- An event that ends a move leaves the motor off. -/
theorem step_pins_of_ends {w w' : Firmware} (hreg : w.controller.Regular) {e : FirmwareEvent}
    (hends : e.EndsMove w.controller w.mCtrlService)
    (hstep : (firmwareMachine g).step w e = some w') : w'.controller.pins = Pins.off := by
  cases e with
  | mainStep => exact hends.elim
  | tick r =>
      obtain ⟨hrun, rfl⟩ := (step_tick_eq_some g).mp hstep
      rcases hends with hp | hs
      · exact hreg.tick_pins_of_reached hrun hp
      · exact Controller.tick_pins_of_stalled hreg.cb hs
  | ble evt =>
      cases hstep
      cases evt with
      | connected connHandle => exact hends.elim
      | disconnected => exact hends.elim
      | other => exact hends.elim
      | write e =>
          obtain ⟨hhandle, hlen, hcode⟩ := hends
          show (bleCtrlServiceOnWrite g w.mCtrlService e w.controller).pins = _
          unfold bleCtrlServiceOnWrite
          rw [if_pos ⟨hhandle, hlen⟩, if_pos hcode]
          exact hreg.controllerStop_pins

/-- The motor stays off along a run without writes of a new target. -/
theorem run_pins_off {w w' : Firmware} {es : List FirmwareEvent}
    (h : (firmwareMachine g).Reachable w) (hoff : w.controller.pins = Pins.off)
    (hquiet : (firmwareMachine g).Meets (fun w e => ¬e.StartsMove w.mCtrlService) w es)
    (hrun : (firmwareMachine g).run w es = some w') : w'.controller.pins = Pins.off := by
  have hboth := Machine.run_preserves_of_meets
    (I := fun w => (firmwareMachine g).Reachable w ∧ w.controller.pins = Pins.off) ?_ ⟨h, hoff⟩
    hquiet hrun
  · exact hboth.2
  · rintro w e w' ⟨hw, hpins⟩ hstart hstep
    refine ⟨hw.step hstep, ?_⟩
    rcases step_pins (reachable_regular hw) hstep with hs | hs | hs
    · rw [hs, hpins]
    · exact hs
    · exact absurd hs hstart

/-- **Off stays off.** In every run from boot, a step after which the motor is energised as it was
not before handles a set-target or reset write; and after a stop, after the target is reached and
after the idle timeout all motor pins are low, and stay low through every run of ticks, connects,
disconnects, main-loop steps and other writes. -/
theorem off_stays_off {w w' : Firmware} (h : (firmwareMachine g).Reachable w) {e : FirmwareEvent}
    (hstep : (firmwareMachine g).step w e = some w') :
    (w'.controller.pins ≠ Pins.off → w'.controller.pins ≠ w.controller.pins →
      e.StartsMove w.mCtrlService) ∧
    (e.EndsMove w.controller w.mCtrlService → ∀ es w'',
      (firmwareMachine g).Meets (fun w e => ¬e.StartsMove w.mCtrlService) w' es →
      (firmwareMachine g).run w' es = some w'' → w''.controller.pins = Pins.off) := by
  have hreg := reachable_regular h
  constructor
  · intro hon hne
    rcases step_pins hreg hstep with hs | hs | hs
    · exact absurd hs hne
    · exact absurd hs hon
    · exact hs
  · intro hends es w'' hquiet hrun
    exact run_pins_off (h.step hstep) (step_pins_of_ends hreg hends hstep) hquiet hrun

/-- A desk that has been sent to 840 mm is stopped; edges while it coasts leave it off. -/
theorem off_stays_off_stop :
    ∃ w w' w'' : Firmware,
      (firmwareMachine .shipped).run bootAtZero [.ble (.write (.ofBytes 7 [0x60, 0x48, 0x03]))] =
        some w ∧ w.controller.pins = Pins.driving .up ∧
      (firmwareMachine .shipped).step w (.ble (.write (.ofBytes 7 [0xAA]))) = some w' ∧
      (firmwareMachine .shipped).run w' [.tick 1, .mainStep, .tick 0, .ble .disconnected] =
        some w'' ∧ w''.controller.pins = Pins.off :=
  ⟨_, _, _, rfl, rfl, rfl, rfl, (off_stays_off (g := .shipped) (e := .ble (.write (.ofBytes 7 [0xAA])))
    ⟨bootAtZero, [.ble (.write (.ofBytes 7 [0x60, 0x48, 0x03]))], ⟨_, _, _, _, rfl⟩, rfl⟩ rfl).2
    ⟨rfl, by decide, rfl⟩ [.tick 1, .mainStep, .tick 0, .ble .disconnected] _
    ⟨id, fun _ _ => ⟨id, fun _ _ => ⟨id, fun _ _ => ⟨id, fun _ _ => trivial⟩⟩⟩⟩ rfl⟩

end Firmware

end Acromegaly
