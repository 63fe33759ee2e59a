import Acromegaly.Motion.Quiet
import Acromegaly.Motion.Safety

/-!
# Every powered move ends, and ends where it should

With no command in between, a driven motor is switched off by the tick that counts the last edge
or by the idle timeout. The variant is `budget`: 24 idle ticks for every tick of distance left
after the next edge, and those left until the timeout. An edge shortens the distance by exactly one
(the counter cannot overshoot or wrap on the way) and restarts the idle counter at 1; a tick
without an edge uses up one idle tick.
-/

namespace Acromegaly

open Found

namespace Controller

/-- The distance left, in ticks. -/
def remaining (c : Controller) : ℕ := (c.mState.target.toInt - c.mState.position.toInt).natAbs

/-- An upper bound of the ticks left before the last one. -/
def budget (c : Controller) : ℕ := 24 * (c.remaining - 1) + (24 - c.mIdleCounter.toNat)

theorem pins_ne_off_iff {c : Controller} (h : c.Regular) :
    c.pins ≠ Pins.off ↔ c.mState.movement ≠ .none := by
  rw [h.pins]
  cases c.mState.movement <;> simp [Pins.driving, Pins.off]

/-- While the motor is driven, the counter after the next edge. -/
theorem Regular.toInt_nextPosition {c : Controller} (h : c.Regular)
    (hm : c.mState.movement ≠ .none) :
    c.nextPosition.toInt = c.mState.position.toInt + c.mState.movement.sign := by
  obtain ⟨hi, ha⟩ := h.driven hm
  unfold nextPosition
  rw [hi]
  exact toInt_stepPosition_of_aim ha

/-- While the motor is driven, an edge brings the counter one tick closer to the target. -/
theorem Regular.remaining_of_edge {c : Controller} (h : c.Regular)
    (hm : c.mState.movement ≠ .none) :
    (c.mState.target.toInt - c.nextPosition.toInt).natAbs + 1 = c.remaining := by
  have ha := (h.driven hm).2
  unfold remaining
  rw [h.toInt_nextPosition hm]
  cases hd : c.mState.movement with
  | up =>
      rw [hd] at ha
      have hlt := Int16.lt_iff_toInt_lt.mp (aim_eq_up.mp ha).2
      simp only [MoveDirection.sign]
      omega
  | down =>
      rw [hd] at ha
      have hlt := Int16.lt_iff_toInt_lt.mp (aim_eq_down.mp ha).2
      simp only [MoveDirection.sign]
      omega
  | none => exact absurd hd hm

/-- An edge under power ends the move exactly if the counter is then at the target. -/
theorem Regular.passed_iff {c : Controller} (h : c.Regular) (hm : c.mState.movement ≠ .none) :
    Passed c.mInertMovement c.mState.target c.nextPosition ↔ c.nextPosition = c.mState.target := by
  obtain ⟨hi, ha⟩ := h.driven hm
  have hnext := h.toInt_nextPosition hm
  rw [hi, ← Int16.toInt_inj]
  cases hd : c.mState.movement with
  | up =>
      rw [hd] at ha hnext
      obtain ⟨hnil, hlt⟩ := aim_eq_up.mp ha
      have hlt := Int16.lt_iff_toInt_lt.mp hlt
      simp only [MoveDirection.sign] at hnext
      simp only [Passed, ge_iff_le, Int16.le_iff_toInt_le]
      rw [and_iff_right hnil]
      omega
  | down =>
      rw [hd] at ha hnext
      obtain ⟨hnil, hlt⟩ := aim_eq_down.mp ha
      have hlt := Int16.lt_iff_toInt_lt.mp hlt
      simp only [MoveDirection.sign] at hnext
      simp only [Passed, Int16.le_iff_toInt_le]
      rw [and_iff_right hnil]
      omega
  | none => exact absurd hd hm

/-- The budget after an edge that does not end the move. -/
theorem Regular.budget_counted {c : Controller} (h : c.Regular) (hm : c.mState.movement ≠ .none)
    (hp : c.nextPosition ≠ c.mState.target) (r : UInt32) : (c.counted r).budget < c.budget := by
  have hedge := h.remaining_of_edge hm
  have hrem : (c.counted r).remaining = (c.mState.target.toInt - c.nextPosition.toInt).natAbs := rfl
  have hidle : (c.counted r).mIdleCounter.toNat = 1 := rfl
  have hne : (c.mState.target.toInt - c.nextPosition.toInt).natAbs ≠ 0 := by
    intro hz
    apply hp
    rw [← Int16.toInt_inj]
    omega
  unfold budget
  rw [hrem, hidle]
  omega

/-- The budget after a tick without an edge that is not the idle timeout. -/
theorem Regular.budget_unmoved {c : Controller} (h : c.Regular) (hrun : c.timerRunning = true)
    (hs : ¬c.stalled) : c.unmoved.budget < c.budget := by
  have hle : c.mIdleCounter.toNat ≤ 24 := UInt8.le_iff_toNat_le.mp (h.idle hrun)
  -- at the threshold the counter has settled, and the tick would have been the timeout
  have hlt : c.mIdleCounter.toNat < 24 := by
    by_contra hge
    have h24 : (24 : UInt8).toNat = 24 := rfl
    rcases h.settled with hp | hz
    · refine hs ⟨hp, ?_⟩
      rw [ctrTimerTicksStopThreshold_eq, ge_iff_le, UInt8.le_iff_toNat_le, h24]
      omega
    · rw [hz, UInt8.toNat_zero] at hge
      omega
  have hidle : c.unmoved.mIdleCounter.toNat = c.mIdleCounter.toNat + 1 := by
    rw [unmoved_mIdleCounter, UInt8.toNat_add, UInt8.toNat_one]
    omega
  have hrem : c.unmoved.remaining = c.remaining := rfl
  unfold budget
  rw [hrem, hidle]
  omega

/-- The end of a move by its last edge: the counter is at the target. -/
def EndsAtTarget (c c' : Controller) : Prop := c'.mState.position = c.mState.target

/-- The end of a move by the idle timeout: no edge was seen, and the timer is stopped. -/
def EndsIdle (r : UInt32) (c c' : Controller) : Prop :=
  r = c.mPreviousInpinState ∧ c.stalled ∧ c'.timerRunning = false

/-- **A tick under power.** It ends the move, at the target or by the idle timeout; or it leaves
the motor driven towards the same target with a smaller budget. -/
theorem Regular.tick_powered {c : Controller} (h : c.Regular) (hon : c.pins ≠ Pins.off)
    (r : UInt32) :
    c.timerRunning = true ∧
      let c' := c.timerTimeoutHandler r
      (c'.pins = Pins.off ∧ (c.EndsAtTarget c' ∨ EndsIdle r c c')) ∨
        (c'.pins ≠ Pins.off ∧ c'.mState.target = c.mState.target ∧ c'.budget < c.budget) := by
  have hm := (pins_ne_off_iff h).mp hon
  have hrun : c.timerRunning = true := by
    apply h.running.mpr
    rw [(h.driven hm).1]
    exact hm
  refine ⟨hrun, ?_⟩
  rcases h.tick_cases hrun r with ⟨-, hp, heq⟩ | ⟨-, hp, heq⟩ | ⟨-, hs, heq⟩ | ⟨hr, hs, heq⟩
  · rw [heq]
    exact .inl ⟨rfl, .inl ((h.passed_iff hm).mp hp)⟩
  · rw [heq]
    exact .inr ⟨hon, rfl, h.budget_counted hm (mt (h.passed_iff hm).mpr hp) r⟩
  · rw [heq]
    exact .inr ⟨hon, rfl, h.budget_unmoved hrun hs⟩
  · rw [heq]
    exact .inl ⟨rfl, .inr ⟨hr, hs, rfl⟩⟩

/-! ## The move as a whole -/

/-- While the motor is still on, ticks have left the target alone. -/
theorem run_ticks_powered {c c' : Controller} (h : c.Regular) {rs : List UInt32}
    (hrun : controllerMachine.run c (rs.map .tick) = some c') (hon : c'.pins ≠ Pins.off) :
    c'.Regular ∧ c'.mState.target = c.mState.target := by
  have hinv := h.run_ticks (I := fun x => x.pins = Pins.off ∨ x.mState.target = c.mState.target)
    ?_ (.inr rfl) hrun
  · exact ⟨hinv.1, hinv.2.resolve_left hon⟩
  · intro x r hx hor hrunning
    by_cases hoff : x.pins = Pins.off
    · left
      rcases hx.tick_pins hrunning r with hp | hp
      · rw [hp, hoff]
      · exact hp
    · rcases (hx.tick_powered hoff r).2 with ⟨hp, -⟩ | ⟨-, ht, -⟩
      · exact .inl hp
      · exact .inr (ht.trans (hor.resolve_left hoff))

/-- The budget of a driven motor is at most 24 ticks for each tick of distance. -/
theorem Regular.budget_le {c : Controller} (h : c.Regular) (hon : c.pins ≠ Pins.off) :
    c.budget ≤ 24 * c.remaining := by
  have hedge := h.remaining_of_edge ((pins_ne_off_iff h).mp hon)
  unfold budget
  omega

/-- **Every powered move ends, and ends where it should.** From a reachable state with the motor on
and the target `d` ticks away, with no command in between: whatever the readings of the input pin,
the motor is on for at most `24 * d` ticks and the next tick switches it off; and the tick that
switches it off leaves the counter exactly at the target, or it is the idle timeout, which has seen
no edge and stops the timer. -/
theorem powered_move_ends {c : Controller} (h : controllerMachine.Reachable c)
    (hon : c.pins ≠ Pins.off) :
    (∀ rs : List UInt32, 24 * c.remaining + 1 ≤ rs.length → ∃ pre r post c₁ c₂,
      rs = pre ++ r :: post ∧ pre.length ≤ 24 * c.remaining ∧
      controllerMachine.run c (pre.map .tick) = some c₁ ∧ c₁.pins ≠ Pins.off ∧
      controllerMachine.step c₁ (.tick r) = some c₂ ∧ c₂.pins = Pins.off) ∧
    (∀ (pre : List UInt32) (r : UInt32) (c₁ c₂ : Controller),
      controllerMachine.run c (pre.map .tick) = some c₁ → c₁.pins ≠ Pins.off →
      controllerMachine.step c₁ (.tick r) = some c₂ → c₂.pins = Pins.off →
      c₂.mState.position = c.mState.target ∨
        (r = c₁.mPreviousInpinState ∧ c₁.stalled ∧ c₂.timerRunning = false)) := by
  have hreg := controllerMachine_regular h
  constructor
  · intro rs hlen
    have hbudget := hreg.budget_le hon
    have hticks : ∀ e ∈ rs.map CtrlEvent.tick, ∃ r, e = CtrlEvent.tick r := by
      intro e he
      obtain ⟨r, -, rfl⟩ := List.mem_map.mp he
      exact ⟨r, rfl⟩
    have hlong : c.budget < (rs.map CtrlEvent.tick).length := by
      rw [List.length_map]
      omega
    have hends := Machine.ends_within (M := controllerMachine) (I := Regular)
      (L := fun x => x.pins ≠ Pins.off) ?_ hreg hon hticks hlong
    · obtain ⟨pre, e, post, c₁, c₂, hes, hpre, hrun, hlive, hstep, hoff⟩ := hends
      obtain ⟨pre, rest, rfl, rfl, hrest⟩ := List.map_eq_append_iff.mp hes
      obtain ⟨r, post, rfl, rfl, rfl⟩ := List.map_eq_cons_iff.mp hrest
      rw [List.length_map] at hpre
      exact ⟨pre, r, post, c₁, c₂, rfl, le_trans hpre hbudget, hrun, hlive, hstep,
        not_not.mp hoff⟩
    · rintro x _ hx hxon ⟨r, rfl⟩
      obtain ⟨hrun, hcases⟩ := hx.tick_powered hxon r
      refine ⟨x.timerTimeoutHandler r, step_tick hrun r, hx.tick hrun r, fun hlive => ?_⟩
      rcases hcases with ⟨hoff, -⟩ | ⟨-, -, hlt⟩
      · exact absurd hoff hlive
      · exact hlt
  · intro pre r c₁ c₂ hrun hon₁ hstep hoff
    obtain ⟨hreg₁, htarget⟩ := run_ticks_powered hreg hrun hon₁
    obtain ⟨hrunning, hcases⟩ := hreg₁.tick_powered hon₁ r
    rw [step_tick hrunning r] at hstep
    cases hstep
    rcases hcases with ⟨-, hend | hend⟩ | ⟨hlive, -⟩
    · exact .inl (hend.trans htarget)
    · exact .inr hend
    · exact absurd hoff hlive

/-- A desk at tick `0` sent to tick `2` whose input never changes is off within 49 ticks. -/
theorem powered_move_ends_stalled :
    ∃ c pre r post c₁ c₂, controllerMachine.run (boot 0 1) [.command (.target 2)] = some c ∧
      List.replicate 49 1 = pre ++ r :: post ∧ pre.length ≤ 48 ∧
      controllerMachine.run c (pre.map .tick) = some c₁ ∧ c₁.pins ≠ Pins.off ∧
      controllerMachine.step c₁ (.tick r) = some c₂ ∧ c₂.pins = Pins.off := by
  have hrun : controllerMachine.run (boot 0 1) [.command (.target 2)] =
      some ((boot 0 1).command (.target 2)) := rfl
  obtain ⟨pre, r, post, c₁, c₂, h⟩ :=
    (powered_move_ends (reachable_of_run hrun) (by decide)).1 (List.replicate 49 1) (by decide)
  exact ⟨_, pre, r, post, c₁, c₂, hrun, h⟩

end Controller

end Acromegaly
