import Acromegaly.Motion.Quiet
import Acromegaly.Motion.Safety
import Mathlib.Data.List.Induction

/-!
# The rest state

The idle timeout stops the timer, brings the counter within the limits and clears the target, its
type and both directions (`IsAtRest`). With the timer stopped there are no ticks, and no command
moves the counter, so the position stands until a command has started the motor and a tick has
followed it (`position_of_timer_stopped`). Which of the limits is stored depends on the target type
that is left from earlier commands; after a set-target or a stop that is never an extremum
(`targetType_of_stop_or_target`), and a position within the limits is kept.
-/

namespace Acromegaly

open Found

/-! ## Commands of a run -/

/-- The command an event is, unless the controller ignores it. -/
def CtrlEvent.accepted : CtrlEvent → Option Command
  | .command cmd => if cmd.sets.isSome then some cmd else none
  | .tick _ => none

/-- The latest accepted command of a run. -/
def lastAccepted (es : List CtrlEvent) : Option Command :=
  (es.filterMap CtrlEvent.accepted).getLast?

/-- The tick is the idle timeout. -/
def CtrlEvent.IdleTimeout (c : Controller) : CtrlEvent → Prop
  | .command _ => False
  | .tick r => (c.samplePin r).stalled

instance (c : Controller) (e : CtrlEvent) : Decidable (e.IdleTimeout c) := by
  cases e <;> unfold CtrlEvent.IdleTimeout <;> infer_instance

theorem lastAccepted_concat (es : List CtrlEvent) (e : CtrlEvent) :
    lastAccepted (es ++ [e]) = e.accepted.or (lastAccepted es) := by
  unfold lastAccepted
  rw [List.filterMap_append]
  cases hacc : e.accepted with
  | none => simp [hacc]
  | some cmd => simp [hacc]

namespace Controller

/-! ## The timeout -/

/-- An edge and the idle timeout exclude each other, so the timeout counts nothing. -/
theorem Regular.stalled_of_samplePin {c : Controller} (h : c.Regular)
    (hrun : c.timerRunning = true) {r : UInt32} (hs : (c.samplePin r).stalled) :
    r = c.mPreviousInpinState ∧ c.stalled := by
  by_cases hr : r = c.mPreviousInpinState
  · rw [hr, samplePin_of_eq] at hs
    exact ⟨hr, hs⟩
  · have hedge : c.mPreviousPosition = c.nextPosition ∧
        c.mIdleCounter ≥ ctrTimerTicksStopThreshold := by
      by_cases hp : Passed c.mInertMovement c.mState.target c.nextPosition
      · rw [samplePin_of_passed h.cb hr hp] at hs
        exact hs
      · rw [samplePin_of_not_passed hr hp] at hs
        exact hs
    rcases h.settled with hprev | hzero
    · have hmoved : c.nextPosition ≠ c.mState.position :=
        stepPosition_ne (h.running.mp hrun) c.mState.position
      exact absurd (hedge.1.symm.trans hprev) hmoved
    · rw [hzero] at hedge
      exact absurd hedge.2 (by decide)

/-- A tick on which the idle timeout fires. -/
theorem Regular.tick_of_stalled {c : Controller} (h : c.Regular) (hrun : c.timerRunning = true)
    {r : UInt32} (hs : (c.samplePin r).stalled) : c.timerTimeoutHandler r = c.rested := by
  obtain ⟨hr, hstalled⟩ := h.stalled_of_samplePin hrun hs
  rcases h.tick_cases_of_eq hr with ⟨hnot, -⟩ | ⟨-, heq⟩
  · exact absurd hstalled hnot
  · exact heq

/-- The position the timeout stores lies within the limits. -/
theorem sanitized_mem (st : ControllerState) :
    tickLowerLimit ≤ sanitized st ∧ sanitized st ≤ ticksUpperLimit := by
  have hlimits : tickLowerLimit ≤ ticksUpperLimit := by decide
  unfold sanitized
  split_ifs with h₁ h₂
  · exact ⟨hlimits, Int16.le_refl _⟩
  · exact ⟨Int16.le_refl _, hlimits⟩
  · rw [not_or] at h₁ h₂
    exact ⟨Int16.not_lt.mp h₂.1, Int16.not_lt.mp h₁.1⟩

/-- Without an extremum a position within the limits is kept. -/
theorem sanitized_of_mem {st : ControllerState}
    (hty : st.targetType = .none ∨ st.targetType = .exact) (h₁ : tickLowerLimit ≤ st.position)
    (h₂ : st.position ≤ ticksUpperLimit) : sanitized st = st.position := by
  have hmax : st.targetType ≠ .extremumMax := by
    rcases hty with h | h <;> simp [h]
  have hmin : st.targetType ≠ .extremumMin := by
    rcases hty with h | h <;> simp [h]
  unfold sanitized
  rw [if_neg, if_neg]
  · exact not_or.mpr ⟨Int16.not_lt.mpr h₁, hmin⟩
  · exact not_or.mpr ⟨Int16.not_lt.mpr h₂, hmax⟩

/-- The state an idle timeout leaves. -/
structure IsAtRest (c : Controller) : Prop where
  lower : tickLowerLimit ≤ c.mState.position
  upper : c.mState.position ≤ ticksUpperLimit
  target : c.mState.target = nilPosition
  targetType : c.mState.targetType = .none
  movement : c.mState.movement = .none
  inert : c.mInertMovement = .none
  pins : c.pins = Pins.off
  timer : c.timerRunning = false

theorem isAtRest_rested (c : Controller) : c.rested.IsAtRest where
  lower := (sanitized_mem c.mState).1
  upper := (sanitized_mem c.mState).2
  target := rfl
  targetType := rfl
  movement := rfl
  inert := rfl
  pins := rfl
  timer := rfl

/-! ## Until the next tick -/

/-- In the run `es` from `c` a tick comes after a command that has left the motor on. -/
def TicksAfterStart (c : Controller) (es : List CtrlEvent) : Prop :=
  ∃ pre cmd mid r post c₁, es = pre ++ .command cmd :: (mid ++ .tick r :: post) ∧
    controllerMachine.run c (pre ++ [.command cmd]) = some c₁ ∧ c₁.pins ≠ Pins.off

theorem TicksAfterStart.cons {c c₁ : Controller} {e : CtrlEvent} {es : List CtrlEvent}
    (hstep : controllerMachine.step c e = some c₁) (h : TicksAfterStart c₁ es) :
    TicksAfterStart c (e :: es) := by
  obtain ⟨pre, cmd, mid, r, post, c₂, rfl, hrun, hon⟩ := h
  exact ⟨e :: pre, cmd, mid, r, post, c₂, rfl, Machine.run_cons_eq_some.mpr ⟨c₁, hstep, hrun⟩, hon⟩

/-- A run without ticks leaves the position as it is. -/
theorem Regular.position_of_commands {c c' : Controller} (h : c.Regular) {es : List CtrlEvent}
    (hrun : controllerMachine.run c es = some c') (hno : ∀ r, .tick r ∉ es) :
    c'.mState.position = c.mState.position := by
  induction es generalizing c with
  | nil =>
      cases hrun
      rfl
  | cons e es ih =>
      obtain ⟨c₁, hstep, hrest⟩ := Machine.run_cons_eq_some.mp hrun
      cases e with
      | tick r => exact absurd List.mem_cons_self (hno r)
      | command cmd =>
          cases hstep
          have hlater := ih (h.command cmd) hrest fun r hr => hno r (List.mem_cons_of_mem _ hr)
          exact hlater.trans (h.command_position cmd)

/-- A command that starts a stopped timer has left the motor on. -/
theorem Regular.pins_of_started {c : Controller} (h : c.Regular) (hstop : c.timerRunning = false)
    {cmd : Command} (hstart : (c.command cmd).timerRunning = true) :
    (c.command cmd).pins ≠ Pins.off := by
  rcases h.command_cases cmd with heq | ⟨t, ty, heq⟩
  · rw [heq, hstop] at hstart
    cases hstart
  · rw [heq, aimed_timerRunning] at hstart
    rw [heq, aimed_pins]
    split_ifs at hstart with haim
    · rw [hstop] at hstart
      cases hstart
    · cases hd : aim t c.mState.position with
      | up => simp [Pins.driving, Pins.off]
      | down => simp [Pins.driving, Pins.off]
      | none => exact absurd hd haim

/-- With the timer stopped the position stands until a tick after a motor start. -/
theorem position_of_timer_stopped {c c' : Controller} (h : c.Regular)
    (hstop : c.timerRunning = false) {es : List CtrlEvent}
    (hrun : controllerMachine.run c es = some c') :
    c'.mState.position = c.mState.position ∨ TicksAfterStart c es := by
  induction es generalizing c with
  | nil =>
      cases hrun
      exact .inl rfl
  | cons e es ih =>
      obtain ⟨c₁, hstep, hrest⟩ := Machine.run_cons_eq_some.mp hrun
      cases e with
      | tick r =>
          have hon := (step_tick_eq_some.mp hstep).1
          rw [hstop] at hon
          cases hon
      | command cmd =>
          have hc₁ : c.command cmd = c₁ := by
            cases hstep
            rfl
          subst hc₁
          have hreg := h.command cmd
          by_cases hstart : (c.command cmd).timerRunning = true
          · by_cases htick : ∃ r, CtrlEvent.tick r ∈ es
            · obtain ⟨r, hr⟩ := htick
              obtain ⟨mid, post, hes⟩ := List.append_of_mem hr
              exact .inr ⟨[], cmd, mid, r, post, c.command cmd, by rw [hes]; rfl,
                (Machine.run_singleton _ _).trans hstep, h.pins_of_started hstop hstart⟩
            · have hpos := hreg.position_of_commands hrest fun r hr => htick ⟨r, hr⟩
              exact .inl (hpos.trans (h.command_position cmd))
          · rcases ih hreg (Bool.eq_false_of_not_eq_true hstart) hrest with hpos | hticks
            · exact .inl (hpos.trans (h.command_position cmd))
            · exact .inr (hticks.cons hstep)

/-! ## The target type left by the commands -/

/-- A tick leaves the target type as it is or clears it. -/
theorem Regular.tick_targetType {c : Controller} (h : c.Regular) (hrun : c.timerRunning = true)
    (r : UInt32) :
    (c.timerTimeoutHandler r).mState.targetType = c.mState.targetType ∨
      (c.timerTimeoutHandler r).mState.targetType = .none := by
  rcases h.tick_cases hrun r with ⟨-, -, heq⟩ | ⟨-, -, heq⟩ | ⟨-, -, heq⟩ | ⟨-, -, heq⟩
  · rw [heq]; exact .inr rfl
  · rw [heq]; exact .inl rfl
  · rw [heq]; exact .inl rfl
  · rw [heq]; exact .inr rfl

/-- The target type is unset, or it is the one the latest accepted command has set. -/
theorem targetType_of_lastAccepted {p : Int16} {r₀ : UInt32} {es : List CtrlEvent} {c : Controller}
    (hrun : controllerMachine.run (boot p r₀) es = some c) :
    c.mState.targetType = .none ∨
      ∃ cmd t, lastAccepted es = some cmd ∧ cmd.sets = some (t, c.mState.targetType) := by
  induction es using List.reverseRecOn generalizing c with
  | nil =>
      cases hrun
      simp
  | append_singleton es e ih =>
      obtain ⟨c₀, hrun₀, hstep⟩ := Machine.run_concat_eq_some.mp hrun
      have hreg := controllerMachine_regular (reachable_of_run hrun₀)
      rw [lastAccepted_concat]
      cases e with
      | tick r =>
          obtain ⟨hon, rfl⟩ := step_tick_eq_some.mp hstep
          rcases hreg.tick_targetType hon r with hty | hty
          · rw [hty]
            exact ih hrun₀
          · exact .inl hty
      | command cmd =>
          cases hstep
          rcases hsets : cmd.sets with _ | ⟨t, ty⟩
          · rw [command_of_sets_none hsets]
            simpa [CtrlEvent.accepted, hsets] using ih hrun₀
          · rw [hreg.command_of_sets hsets]
            exact .inr ⟨cmd, t, by simp [CtrlEvent.accepted, hsets], hsets⟩

/-- After a stop or a set-target it is no extremum. -/
theorem targetType_of_stop_or_target {p : Int16} {r₀ : UInt32} {es : List CtrlEvent}
    {c : Controller} (hrun : controllerMachine.run (boot p r₀) es = some c)
    (hlast : lastAccepted es = some .stop ∨ ∃ t, lastAccepted es = some (.target t)) :
    c.mState.targetType = .none ∨ c.mState.targetType = .exact := by
  rcases targetType_of_lastAccepted hrun with hty | ⟨cmd, t, hcmd, hsets⟩
  · exact .inl hty
  · rcases hlast with hstop | ⟨t', htarget⟩
    · rw [hstop] at hcmd
      cases hcmd
      simp only [Command.sets, Option.some.injEq, Prod.mk.injEq] at hsets
      exact .inl hsets.2.symm
    · rw [htarget] at hcmd
      cases hcmd
      simp only [Command.sets, Option.some.injEq, Prod.mk.injEq] at hsets
      exact .inr hsets.2.symm

/-- **The idle timeout restores a rest state.** From any boot position, after any commands and ticks:
a tick on which the idle timeout fires leaves the controller at rest; the position then stands
until a tick that follows a motor start; and if the latest accepted command was a stop or a
set-target and the position was within the limits, the timeout has kept it. -/
theorem idle_timeout_rests {p : Int16} {r₀ r : UInt32} {es : List CtrlEvent} {c c' : Controller}
    (hrun : controllerMachine.run (boot p r₀) es = some c)
    (hstep : controllerMachine.step c (.tick r) = some c')
    (hfire : (CtrlEvent.tick r).IdleTimeout c) :
    c'.IsAtRest ∧
    (∀ fs c'', controllerMachine.run c' fs = some c'' →
      c''.mState.position = c'.mState.position ∨ TicksAfterStart c' fs) ∧
    (lastAccepted es = some .stop ∨ (∃ t, lastAccepted es = some (.target t)) →
      tickLowerLimit ≤ c.mState.position → c.mState.position ≤ ticksUpperLimit →
      c'.mState.position = c.mState.position) := by
  have hreg := controllerMachine_regular (reachable_of_run hrun)
  obtain ⟨hon, hc'⟩ := step_tick_eq_some.mp hstep
  rw [hreg.tick_of_stalled hon hfire] at hc'
  subst hc'
  refine ⟨isAtRest_rested c, ?_, ?_⟩
  · intro fs c'' hrun'
    exact position_of_timer_stopped hreg.rested rfl hrun'
  · intro hlast hlower hupper
    have hty := targetType_of_stop_or_target hrun hlast
    exact sanitized_of_mem hty hlower hupper

/-- A desk at tick `100` that is sent to tick `300`, counts an edge and is blocked. -/
theorem idle_timeout_rests_blocked :
    ∃ c c', controllerMachine.run (boot 100 1)
        (.command (.target 300) :: .tick 0 :: List.replicate 23 (.tick 0)) = some c ∧
      controllerMachine.step c (.tick 0) = some c' ∧ c'.IsAtRest ∧
      c'.mState.position = c.mState.position := by
  have hrun : ∃ c c', controllerMachine.run (boot 100 1)
        (.command (.target 300) :: .tick 0 :: List.replicate 23 (.tick 0)) = some c ∧
      controllerMachine.step c (.tick 0) = some c' ∧ (c.samplePin 0).stalled ∧
      c.mState.position = 101 := ⟨_, _, rfl, rfl, by decide, rfl⟩
  obtain ⟨c, c', hc, hc', hfire, hpos⟩ := hrun
  have hrests := idle_timeout_rests hc hc' hfire
  refine ⟨c, c', hc, hc', hrests.1, hrests.2.2 (.inr ⟨300, by decide⟩) ?_ ?_⟩
  · rw [hpos]
    decide
  · rw [hpos]
    decide

end Controller

end Acromegaly
