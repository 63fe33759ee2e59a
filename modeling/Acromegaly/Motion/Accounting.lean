import Acromegaly.Motion.Rest

/-!
# Tick accounting

The counter against a reference count that looks only at the input pin and the motor pins. An
`Account` remembers the latest reading and the direction the motor was last energised in, and counts
each change of the reading in that direction. The controller keeps `m_inert_movement` for the
latter, which outlives `movement`: edges are counted on the tick that reaches the target and after a
stop as well. Over every stretch of a run without an idle timeout, which sets the counter by other
means, the counter has moved by the balance of the account, modulo `2 ^ 16` (`tick_accounting`).
-/

namespace Acromegaly

open Found

/-! ## The reference count -/

/-- The direction in which the levels of the pins energise the motor. -/
def Pins.direction (p : Pins) : MoveDirection :=
  if p.enabled = true ∧ p.up = true then .up
  else if p.enabled = true ∧ p.down = true then .down
  else .none

@[simp] theorem Pins.direction_driving (d : MoveDirection) : (Pins.driving d).direction = d := by
  cases d <;> rfl

/-- A reference count of edges. -/
structure Account where
  /-- The latest reading of the input pin. -/
  reading : UInt32
  /-- The direction the motor was last energised in; none before the first time. -/
  heading : MoveDirection
  ups : ℕ
  downs : ℕ
  deriving DecidableEq, Repr

namespace Account

/-- The account at boot, with the reading made there. -/
def start (inPinState : UInt32) : Account := ⟨inPinState, .none, 0, 0⟩

/-- Count a stretch from zero. -/
def newStretch (a : Account) : Account := { a with ups := 0, downs := 0 }

/-- A reading of the input pin: a change is counted in the direction last energised. -/
def sample (inPinState : UInt32) (a : Account) : Account :=
  if inPinState = a.reading then a
  else
    match a.heading with
    | .up => { a with reading := inPinState, ups := a.ups + 1 }
    | .down => { a with reading := inPinState, downs := a.downs + 1 }
    | .none => { a with reading := inPinState }

/-- A look at the motor pins. -/
def observe (pins : Pins) (a : Account) : Account :=
  if pins.direction = .none then a else { a with heading := pins.direction }

/-- An event, and the levels of the pins after it. -/
def record (e : CtrlEvent) (pins : Pins) (a : Account) : Account :=
  match e with
  | .command _ => a.observe pins
  | .tick inPinState => (a.sample inPinState).observe pins

/-- What the edges counted amount to. -/
def balance (a : Account) : ℤ := a.ups - a.downs

@[simp] theorem observe_reading (pins : Pins) (a : Account) :
    (a.observe pins).reading = a.reading := by
  unfold observe
  split_ifs <;> rfl

@[simp] theorem observe_balance (pins : Pins) (a : Account) :
    (a.observe pins).balance = a.balance := by
  unfold observe
  split_ifs <;> rfl

@[simp] theorem observe_driving (d : MoveDirection) (a : Account) :
    (a.observe (Pins.driving d)).heading = if d = .none then a.heading else d := by
  unfold observe
  rw [Pins.direction_driving]
  split_ifs <;> rfl

@[simp] theorem sample_reading (inPinState : UInt32) (a : Account) :
    (a.sample inPinState).reading = inPinState := by
  unfold sample
  split_ifs with h
  · exact h.symm
  · split <;> rfl

@[simp] theorem sample_heading (inPinState : UInt32) (a : Account) :
    (a.sample inPinState).heading = a.heading := by
  unfold sample
  split_ifs
  · rfl
  · split <;> rfl

theorem sample_of_eq {inPinState : UInt32} {a : Account} (h : inPinState = a.reading) :
    a.sample inPinState = a := if_pos h

/-- A change of the reading moves the balance in the direction last energised. -/
theorem balance_sample_of_ne {inPinState : UInt32} {a : Account} (h : inPinState ≠ a.reading) :
    (a.sample inPinState).balance = a.balance + a.heading.sign := by
  unfold sample balance
  rw [if_neg h]
  cases a.heading with
  | up =>
      simp only [MoveDirection.sign]
      omega
  | down =>
      simp only [MoveDirection.sign]
      omega
  | none => simp [MoveDirection.sign]

end Account

/-- The account of a run of the controller from `c`, continuing the account `a`. -/
def tally (a : Account) (c : Controller) : List CtrlEvent → Account
  | [] => a
  | e :: es =>
      match controllerMachine.step c e with
      | some c' => tally (a.record e c'.pins) c' es
      | none => a

namespace Controller

/-! ## The counter follows the account -/

/-- The account knows the reading and the direction the controller goes by. -/
structure Follows (a : Account) (c : Controller) : Prop where
  regular : c.Regular
  reading : a.reading = c.mPreviousInpinState
  heading : c.mInertMovement ≠ .none → a.heading = c.mInertMovement

variable {a : Account} {c c' : Controller}

theorem follows_boot (p : Int16) (r : UInt32) : Follows (.start r) (boot p r) where
  regular := boot_regular p r
  reading := by simp [Account.start, boot, controllerRegisterCb, controllerInit, controllerCallCb]
  heading h := by
    simp [boot, controllerRegisterCb, controllerInit, controllerCallCb] at h

/-- A look at the pins of a regular controller keeps the heading right. -/
theorem heading_observe (h : c.Regular) (hprev : c.mInertMovement ≠ .none →
    c.mState.movement = .none → a.heading = c.mInertMovement) (hi : c.mInertMovement ≠ .none) :
    (a.observe c.pins).heading = c.mInertMovement := by
  rw [h.pins, Account.observe_driving]
  split_ifs with hm
  · exact hprev hi hm
  · exact ((h.driven hm).1).symm

/-- A command keeps the reading, and it energises the motor in the direction it sets. -/
theorem Follows.command (h : Follows a c) (cmd : Command) :
    Follows (a.record (.command cmd) (c.command cmd).pins) (c.command cmd) := by
  refine ⟨h.regular.command cmd, ?_, ?_⟩
  · show (a.observe _).reading = _
    rw [Account.observe_reading, h.reading]
    rcases h.regular.command_cases cmd with heq | ⟨t, ty, heq⟩
    · rw [heq]
    · rw [heq]
      rfl
  · apply heading_observe (h.regular.command cmd)
    rcases h.regular.command_cases cmd with heq | ⟨t, ty, heq⟩
    · rw [heq]
      exact fun hi _ => h.heading hi
    · rw [heq]
      intro hi hm
      have haim : aim t c.mState.position = .none := hm
      rw [aimed_mInertMovement, if_pos haim] at hi ⊢
      exact h.heading hi

/-- A tick that is not the idle timeout keeps the direction and counts an edge in it. -/
theorem Regular.tick_counts (h : c.Regular) (hrun : c.timerRunning = true) {r : UInt32}
    (hno : ¬(c.samplePin r).stalled) :
    (c.timerTimeoutHandler r).mInertMovement = c.mInertMovement ∧
      (c.timerTimeoutHandler r).mState.position =
        if r = c.mPreviousInpinState then c.mState.position else c.nextPosition := by
  split_ifs with hr
  · rcases h.tick_cases_of_eq hr with ⟨-, heq⟩ | ⟨hs, -⟩
    · rw [heq]
      exact ⟨rfl, rfl⟩
    · rw [hr, samplePin_of_eq] at hno
      exact absurd hs hno
  · rcases h.tick_cases_of_ne hrun hr with ⟨-, heq⟩ | ⟨-, heq⟩
    · rw [heq]
      exact ⟨rfl, rfl⟩
    · rw [heq]
      exact ⟨rfl, rfl⟩

/-- A tick takes over the reading and keeps the direction, unless it is the idle timeout, which
leaves none to keep. -/
theorem Follows.tick (h : Follows a c) (hrun : c.timerRunning = true) (r : UInt32) :
    Follows (a.record (.tick r) (c.timerTimeoutHandler r).pins) (c.timerTimeoutHandler r) := by
  have hreg := h.regular.tick hrun r
  refine ⟨hreg, ?_, ?_⟩
  · show ((a.sample r).observe _).reading = _
    rw [Account.observe_reading, Account.sample_reading,
      h.regular.tick_mPreviousInpinState hrun r]
  · intro hi
    by_cases hno : (c.samplePin r).stalled
    · rw [h.regular.tick_of_stalled hrun hno] at hi
      exact absurd rfl hi
    · apply heading_observe hreg _ hi
      intro _ _
      rw [Account.sample_heading, (h.regular.tick_counts hrun hno).1]
      exact h.heading (h.regular.running.mp hrun)

/-- Whatever the event, the account goes on following the controller. -/
theorem Follows.step {e : CtrlEvent} (h : Follows a c)
    (hstep : controllerMachine.step c e = some c') : Follows (a.record e c'.pins) c' := by
  cases e with
  | command cmd =>
      cases hstep
      exact h.command cmd
  | tick r =>
      obtain ⟨hrun, rfl⟩ := step_tick_eq_some.mp hstep
      exact h.tick hrun r

/-- A tick that is not the idle timeout moves the counter as it moves the balance. -/
theorem Follows.tick_position (h : Follows a c) (hrun : c.timerRunning = true) {r : UInt32}
    (hno : ¬(c.samplePin r).stalled) :
    (c.timerTimeoutHandler r).mState.position.toInt =
      (c.mState.position.toInt + ((a.sample r).balance - a.balance)).bmod (2 ^ 16) := by
  rw [(h.regular.tick_counts hrun hno).2]
  split_ifs with hr
  · rw [Account.sample_of_eq (by rw [h.reading, hr]), Int.sub_self, Int.add_zero]
    exact c.mState.position.toInt_bmod.symm
  · have hsum : (a.sample r).balance - a.balance = c.mInertMovement.sign := by
      rw [Account.balance_sample_of_ne (by rwa [h.reading]),
        h.heading (h.regular.running.mp hrun)]
      omega
    rw [hsum]
    exact toInt_stepPosition c.mInertMovement c.mState.position

/-- Unless it is the idle timeout, an event moves the counter as it moves the balance. -/
theorem Follows.step_position {e : CtrlEvent} (h : Follows a c)
    (hstep : controllerMachine.step c e = some c') (hno : ¬e.IdleTimeout c) :
    c'.mState.position.toInt = (c.mState.position.toInt +
      ((a.record e c'.pins).balance - a.balance)).bmod (2 ^ 16) := by
  cases e with
  | command cmd =>
      cases hstep
      have hbal : (a.record (.command cmd) (c.command cmd).pins).balance = a.balance :=
        Account.observe_balance _ a
      rw [h.regular.command_position cmd, hbal, Int.sub_self, Int.add_zero]
      exact c.mState.position.toInt_bmod.symm
  | tick r =>
      obtain ⟨hrun, rfl⟩ := step_tick_eq_some.mp hstep
      have hbal : (a.record (.tick r) (c.timerTimeoutHandler r).pins).balance =
          (a.sample r).balance := Account.observe_balance _ _
      rw [hbal]
      exact h.tick_position hrun hno

/-! ## Over a run -/

theorem tally_cons {e : CtrlEvent} (hstep : controllerMachine.step c e = some c')
    (es : List CtrlEvent) : tally a c (e :: es) = tally (a.record e c'.pins) c' es := by
  rw [tally, hstep]

/-- The account follows the controller along every run. -/
theorem Follows.run {es : List CtrlEvent} (h : Follows a c)
    (hrun : controllerMachine.run c es = some c') : Follows (tally a c es) c' := by
  induction es generalizing a c with
  | nil =>
      cases hrun
      exact h
  | cons e es ih =>
      obtain ⟨c₁, hstep, hrest⟩ := Machine.run_cons_eq_some.mp hrun
      rw [tally_cons hstep]
      exact ih (h.step hstep) hrest

/-- Over a run without an idle timeout the counter moves as the balance does. -/
theorem Follows.run_position {es : List CtrlEvent} (h : Follows a c)
    (hrun : controllerMachine.run c es = some c')
    (hno : controllerMachine.Meets (fun c e => ¬e.IdleTimeout c) c es) :
    c'.mState.position.toInt =
      (c.mState.position.toInt + ((tally a c es).balance - a.balance)).bmod (2 ^ 16) := by
  induction es generalizing a c with
  | nil =>
      cases hrun
      rw [tally, Int.sub_self, Int.add_zero]
      exact (Int16.toInt_bmod _).symm
  | cons e es ih =>
      obtain ⟨c₁, hstep, hrest⟩ := Machine.run_cons_eq_some.mp hrun
      obtain ⟨he, hlater⟩ := Machine.meets_cons.mp hno
      have hfirst := h.step_position hstep he
      rw [ih (h.step hstep) hrest (hlater c₁ hstep), hfirst, Int.bmod_add_bmod, tally_cons hstep]
      congr 1
      omega

/-- A stretch counted from zero. -/
theorem Follows.newStretch (h : Follows a c) : Follows a.newStretch c where
  regular := h.regular
  reading := h.reading
  heading := h.heading

/-- **Tick accounting.** After any run `es₁` from boot, over any stretch `es₂` of it without an idle
timeout: the counter moves by the readings that differ from the one before them, each counted in
the direction the motor was last energised in, as a 16-bit number. No command moves it. -/
theorem tick_accounting {p : Int16} {r₀ : UInt32} {es₁ es₂ : List CtrlEvent} {c₁ c₂ : Controller}
    (hrun₁ : controllerMachine.run (boot p r₀) es₁ = some c₁)
    (hrun₂ : controllerMachine.run c₁ es₂ = some c₂)
    (hno : controllerMachine.Meets (fun c e => ¬e.IdleTimeout c) c₁ es₂) :
    let a := (tally (.start r₀) (boot p r₀) es₁).newStretch
    let b := tally a c₁ es₂
    c₂.mState.position.toInt = (c₁.mState.position.toInt + b.ups - b.downs).bmod (2 ^ 16) ∧
      ∀ cmd, (c₁.command cmd).mState.position = c₁.mState.position := by
  intro a b
  have hfollows : Follows a c₁ := ((follows_boot p r₀).run hrun₁).newStretch
  refine ⟨?_, fun cmd => hfollows.regular.command_position cmd⟩
  rw [hfollows.run_position hrun₂ hno]
  congr 1
  show c₁.mState.position.toInt + ((b.ups - b.downs : ℤ) - ((0 : ℕ) - (0 : ℕ))) = _
  omega

/-- An edge upwards before the stretch; in it an edge upwards, a stop, an edge while coasting, and
an edge back. -/
theorem tick_accounting_coast :
    ∃ c₁ c₂, controllerMachine.run (boot 100 1) [.command (.target 300), .tick 0] = some c₁ ∧
      controllerMachine.run c₁ [.tick 1, .command .stop, .tick 0, .command (.target 90), .tick 1] =
        some c₂ ∧
      c₂.mState.position.toInt = (c₁.mState.position.toInt + 2 - 1).bmod (2 ^ 16) := by
  have hno : controllerMachine.Meets (fun c e => ¬e.IdleTimeout c)
      (((boot 100 1).command (.target 300)).timerTimeoutHandler 0)
      [.tick 1, .command .stop, .tick 0, .command (.target 90), .tick 1] := by decide
  have hrun : controllerMachine.run (boot 100 1) [.command (.target 300), .tick 0] =
      some (((boot 100 1).command (.target 300)).timerTimeoutHandler 0) := rfl
  exact ⟨_, _, hrun, rfl, (tick_accounting hrun rfl hno).1⟩

end Controller

end Acromegaly
