import Acromegaly.Found.TwosComplement
import Acromegaly.Motion.Steps

/-!
# The safety invariant of the controller

In every state that commands and timer ticks can lead to, the motor pins agree with the recorded
movement, a driven motor is driven towards a target that still lies ahead and is supervised by
the timer, and the two direction pins are never high together, not even between two single pin
writes. All of it is read off `Regular`.
-/

namespace Acromegaly

open Found

/-! ## The levels between two pin writes -/

/-- Both direction pins are high. -/
def Pins.Opposed (p : Pins) : Prop := p.up = true ∧ p.down = true

theorem Pins.driving_not_opposed (d : MoveDirection) : ¬(Pins.driving d).Opposed := by
  cases d <;> simp [Pins.driving, Pins.Opposed, Pins.off]

/-- `set_movement_dir` clears both direction pins before it sets one, so that no prefix of its
writes leaves both high. -/
theorem Pins.writeAll_take_not_opposed {p : Pins} (h : ¬p.Opposed) (d : MoveDirection) (n : ℕ) :
    ¬(p.writeAll ((Controller.motorWrites d).take n)).Opposed := by
  match n with
  | 0 => exact h
  | 1 | 2 | 3 | 4 =>
      cases d <;> simp [Pins.writeAll, Controller.motorWrites, Controller.motorPin, Pins.write,
        Pins.drive, Pins.Opposed]
  | n + 5 =>
      have hlen : (Controller.motorWrites d).length ≤ n + 5 := by
        cases d <;> simp [Controller.motorWrites, Controller.motorPin]
      rw [List.take_of_length_le hlen, Pins.writeAll_motorWrites]
      exact Pins.driving_not_opposed d

/-! ## Edges counted under power -/

/-- The change of the counter on an edge in a direction, as an integer. -/
def MoveDirection.sign : MoveDirection → ℤ
  | .up => 1
  | .down => -1
  | .none => 0

namespace Controller

/-- One counted edge, as a 16-bit sum. -/
theorem toInt_stepPosition (d : MoveDirection) (p : Int16) :
    (stepPosition d p).toInt = (p.toInt + d.sign).bmod (2 ^ 16) := by
  cases d with
  | up => exact Int16.toInt_add p 1
  | down => exact Int16.toInt_sub p 1
  | none =>
      rw [MoveDirection.sign, Int.add_zero]
      exact p.toInt_bmod.symm

/-- Towards a target that lies ahead the counter moves without overflow. -/
theorem toInt_stepPosition_of_aim {d : MoveDirection} {t p : Int16} (ha : aim t p = d) :
    (stepPosition d p).toInt = p.toInt + d.sign := by
  cases d with
  | up => exact toInt_add_one_of_lt (aim_eq_up.mp ha).2
  | down => exact toInt_sub_one_of_lt (aim_eq_down.mp ha).2
  | none => exact (Int.add_zero p.toInt).symm

/-- On an edge under power the counter moves by exactly one in the direction driven. -/
theorem Regular.tick_edge_position {c : Controller} (h : c.Regular)
    (hm : c.mState.movement ≠ .none) {r : UInt32} (hr : r ≠ c.mPreviousInpinState) :
    (c.timerTimeoutHandler r).mState.position.toInt =
      c.mState.position.toInt + c.mState.movement.sign := by
  obtain ⟨hi, ha⟩ := h.driven hm
  have hrun : c.timerRunning = true := h.running.mpr (by rwa [hi])
  have hnext : c.nextPosition.toInt = c.mState.position.toInt + c.mState.movement.sign := by
    unfold nextPosition
    rw [hi]
    exact toInt_stepPosition_of_aim ha
  rcases h.tick_cases_of_ne hrun hr with ⟨-, heq⟩ | ⟨-, heq⟩
  · rw [heq]; exact hnext
  · rw [heq]; exact hnext

/-- A state reached by a run from boot. -/
theorem reachable_of_run {p : Int16} {r : UInt32} {es : List CtrlEvent} {c : Controller}
    (h : controllerMachine.run (boot p r) es = some c) : controllerMachine.Reachable c :=
  ⟨boot p r, es, ⟨p, r, rfl⟩, h⟩

/-! ## The invariant -/

/-- **The safety invariant.** From any boot position, after any commands and ticks: the pins,
the timer, the inert direction and the target agree with the movement; the timer's idle counter
does not wrap; a counted step under power does not wrap; and no prefix of the pin writes of a
change of direction leaves both direction pins high. -/
theorem reachable_safe {c : Controller} (h : controllerMachine.Reachable c) :
    (c.mState.movement = .up →
      c.pins.up = true ∧ c.pins.enabled = true ∧ c.pins.down = false ∧ c.timerRunning = true ∧
        c.mInertMovement = .up ∧ c.mState.target ≠ nilPosition ∧
        c.mState.position < c.mState.target) ∧
    (c.mState.movement = .down →
      c.pins.down = true ∧ c.pins.enabled = true ∧ c.pins.up = false ∧ c.timerRunning = true ∧
        c.mInertMovement = .down ∧ c.mState.target ≠ nilPosition ∧
        c.mState.position > c.mState.target) ∧
    (c.mState.movement = .none →
      c.pins.up = false ∧ c.pins.down = false ∧ c.pins.enabled = false) ∧
    (c.timerRunning = true →
      (c.mInertMovement = .up ∨ c.mInertMovement = .down) ∧ c.mIdleCounter ≤ 24 ∧
        (c.mIdleCounter + 1).toNat = c.mIdleCounter.toNat + 1) ∧
    (c.mState.movement ≠ .none → ∀ r, r ≠ c.mPreviousInpinState →
      (c.timerTimeoutHandler r).mState.position.toInt =
        c.mState.position.toInt + c.mState.movement.sign) ∧
    (∀ d n, ¬(c.pins.writeAll ((motorWrites d).take n)).Opposed) := by
  have hreg := controllerMachine_regular h
  refine ⟨fun hm => ?_, fun hm => ?_, fun hm => ?_, fun hrun => ?_, fun hm r hr => ?_, fun d n => ?_⟩
  · obtain ⟨hi, ha⟩ := hreg.driven (by simp [hm])
    rw [hm] at hi ha
    obtain ⟨hnil, hlt⟩ := aim_eq_up.mp ha
    have hp := hreg.pins
    rw [hm] at hp
    exact ⟨by rw [hp]; rfl, by rw [hp]; rfl, by rw [hp]; rfl, hreg.running.mpr (by simp [hi]), hi,
      hnil, hlt⟩
  · obtain ⟨hi, ha⟩ := hreg.driven (by simp [hm])
    rw [hm] at hi ha
    obtain ⟨hnil, hlt⟩ := aim_eq_down.mp ha
    have hp := hreg.pins
    rw [hm] at hp
    exact ⟨by rw [hp]; rfl, by rw [hp]; rfl, by rw [hp]; rfl, hreg.running.mpr (by simp [hi]), hi,
      hnil, hlt⟩
  · have hp := hreg.pins
    rw [hm] at hp
    exact ⟨by rw [hp]; rfl, by rw [hp]; rfl, by rw [hp]; rfl⟩
  · have hle : c.mIdleCounter ≤ 24 := hreg.idle hrun
    refine ⟨?_, hle, ?_⟩
    · have hi := hreg.running.mp hrun
      cases hd : c.mInertMovement with
      | up => exact .inl rfl
      | down => exact .inr rfl
      | none => exact absurd hd hi
    · have hnat : c.mIdleCounter.toNat ≤ 24 := UInt8.le_iff_toNat_le.mp hle
      rw [UInt8.toNat_add, UInt8.toNat_one]
      omega
  · exact hreg.tick_edge_position hm hr
  · refine Pins.writeAll_take_not_opposed ?_ d n
    rw [hreg.pins]
    exact Pins.driving_not_opposed _

/-- The invariant on a desk at tick `0` that has been sent to tick `2` and has counted one edge. -/
theorem reachable_safe_moving :
    ∃ c, controllerMachine.run (boot 0 1) [.command (.target 2), .tick 0] = some c ∧
      c.mState.movement = .up ∧ c.mState.position < c.mState.target ∧
      (c.mState.movement = .up →
        c.pins.up = true ∧ c.pins.enabled = true ∧ c.pins.down = false ∧ c.timerRunning = true ∧
          c.mInertMovement = .up ∧ c.mState.target ≠ nilPosition ∧
          c.mState.position < c.mState.target) :=
  ⟨_, rfl, by decide, by decide, (reachable_safe (reachable_of_run
    (show controllerMachine.run (boot 0 1) [.command (.target 2), .tick 0] = some _ from rfl))).1⟩

end Controller

end Acromegaly
