import Acromegaly.Motion.Quiet
import Acromegaly.Motion.Safety

/-!
# What an extremum command leaves behind

An extremum command sends the desk to a sentinel target near the end of the `int16_t` range and
relies on the idle timeout, at the mechanical end, to set the counter to the limit. The timeout
knows the extremum from `target_type`. Two things get in its way.

* The counter may reach the sentinel first. That ends the move and clears the type (`edgesToTarget`
  edges after the command), and the timeout then only clamps.
* `sanitize_position` tests the upper limit before the type, so a counter still above it is set to
  the upper limit, also at the bottom.

And from position 32767 the top sentinel lies below. `extremum_calibrates_iff` says exactly when
the command does what it is for.
-/

namespace Acromegaly

open Found

namespace Controller

/-! ## Counting edges -/

/-- The changes of level in a sequence of readings, after the level `prev`. -/
def edges : UInt32 → List UInt32 → ℕ
  | _, [] => 0
  | prev, r :: rs => (if r = prev then 0 else 1) + edges r rs

/-- The counter after `k` edges in a direction. -/
def posAfter (d : MoveDirection) (p : Int16) : ℕ → Int16
  | 0 => p
  | k + 1 => stepPosition d (posAfter d p k)

/-- The counter is a 16-bit one. -/
theorem toInt_posAfter (d : MoveDirection) (p : Int16) (k : ℕ) :
    (posAfter d p k).toInt = (p.toInt + d.sign * k).bmod (2 ^ 16) := by
  induction k with
  | zero =>
      rw [Int.natCast_zero, Int.mul_zero, Int.add_zero]
      exact p.toInt_bmod.symm
  | succ k ih =>
      have hsum : p.toInt + d.sign * ((k + 1 : ℕ) : ℤ) = p.toInt + d.sign * k + d.sign := by
        rw [Int.natCast_add, Int.mul_add, Int.add_assoc, Int.natCast_one, Int.mul_one]
      rw [posAfter, toInt_stepPosition, ih, hsum, Int.bmod_add_bmod]

/-! ## Ticks after a command -/

/-- The first edge, of those after a command, that `update_position` takes for the target is the
`K`-th. -/
structure FirstPassed (d : MoveDirection) (t p : Int16) (K : ℕ) : Prop where
  before : ∀ k, k + 1 < K → ¬Passed d t (posAfter d p (k + 1))
  at_target : ∀ k, k + 1 = K → Passed d t (posAfter d p (k + 1))

/-- The controller `n` edges after a command for target `t` of type `ty` at position `p`, counting
in direction `d`: the target and its type are as commanded until the `K`-th edge, and unset from
then on. -/
structure Seeking (d : MoveDirection) (t p : Int16) (ty : TargetType) (K n : ℕ) (c : Controller) :
    Prop where
  regular : c.Regular
  inert : c.mInertMovement = d
  position : c.mState.position = posAfter d p n
  aiming : n < K → c.mState.target = t ∧ c.mState.targetType = ty
  cleared : K ≤ n → c.mState.target = nilPosition ∧ c.mState.targetType = .none

theorem not_passed_nil (d : MoveDirection) (p : Int16) : ¬Passed d nilPosition p := by
  cases d with
  | up => exact fun h => h.1 rfl
  | down => exact fun h => h.1 rfl
  | none => exact id

section seeking

variable {d : MoveDirection} {t p : Int16} {ty : TargetType} {K n : ℕ} {c : Controller}

/-- An edge. -/
theorem Seeking.edge (hK : FirstPassed d t p K) (h : Seeking d t p ty K n c)
    (hrun : c.timerRunning = true) {r : UInt32} (hr : r ≠ c.mPreviousInpinState) :
    Seeking d t p ty K (n + 1) (c.timerTimeoutHandler r) := by
  have hnext : c.nextPosition = posAfter d p (n + 1) := by
    unfold nextPosition
    rw [h.inert, h.position]
    rfl
  have hreg := h.regular.tick hrun r
  rcases h.regular.tick_cases_of_ne hrun hr with ⟨hp, heq⟩ | ⟨hp, heq⟩
  · -- the target is reached by the `K`-th edge and, being unset afterwards, by no later one
    have hKn : K = n + 1 := by
      rw [h.inert, hnext] at hp
      rcases Nat.lt_trichotomy (n + 1) K with hlt | heqK | hgt
      · rw [(h.aiming (by omega)).1] at hp
        exact absurd hp (hK.before n hlt)
      · exact heqK.symm
      · rw [(h.cleared (by omega)).1] at hp
        exact absurd hp (not_passed_nil d _)
    rw [heq] at hreg ⊢
    exact ⟨hreg, h.inert, hnext, fun hlt => by omega, fun _ => ⟨rfl, rfl⟩⟩
  · have hKn : K ≠ n + 1 := by
      intro heqK
      apply hp
      rw [h.inert, hnext, (h.aiming (by omega)).1]
      exact hK.at_target n heqK.symm
    rw [heq] at hreg ⊢
    exact ⟨hreg, h.inert, hnext, fun hlt => h.aiming (by omega), fun hle => h.cleared (by omega)⟩

/-- A tick without an edge that is not the idle timeout. -/
theorem Seeking.still (h : Seeking d t p ty K n c) (hrun : c.timerRunning = true) {r : UInt32}
    (hr : r = c.mPreviousInpinState) (hon : (c.timerTimeoutHandler r).timerRunning = true) :
    Seeking d t p ty K n (c.timerTimeoutHandler r) := by
  have hreg := h.regular.tick hrun r
  rcases h.regular.tick_cases_of_eq hr with ⟨-, heq⟩ | ⟨-, heq⟩
  · rw [heq] at hreg ⊢
    exact ⟨hreg, h.inert, h.position, h.aiming, h.cleared⟩
  · rw [heq] at hon
    cases hon

/-- A timer that runs after some ticks has run before them. -/
theorem timerRunning_of_run {c' : Controller} {rs : List UInt32}
    (hrun : controllerMachine.run c (rs.map .tick) = some c') (hon : c'.timerRunning = true) :
    c.timerRunning = true := by
  cases rs with
  | nil =>
      cases hrun
      exact hon
  | cons r rs =>
      obtain ⟨c₁, hstep, -⟩ := Machine.run_cons_eq_some.mp hrun
      exact (step_tick_eq_some.mp hstep).1

/-- Any number of ticks without the idle timeout. -/
theorem Seeking.run (hK : FirstPassed d t p K) (h : Seeking d t p ty K n c) {c' : Controller}
    {rs : List UInt32} (hrun : controllerMachine.run c (rs.map .tick) = some c')
    (hon : c'.timerRunning = true) :
    Seeking d t p ty K (n + edges c.mPreviousInpinState rs) c' := by
  induction rs generalizing c n with
  | nil =>
      cases hrun
      exact h
  | cons r rs ih =>
      have hrunning := timerRunning_of_run hrun hon
      obtain ⟨c₁, hstep, hrest⟩ := Machine.run_cons_eq_some.mp hrun
      rw [step_tick hrunning r] at hstep
      cases hstep
      have hprev := h.regular.tick_mPreviousInpinState hrunning r
      unfold edges
      by_cases hr : r = c.mPreviousInpinState
      · have hnext := ih (h.still hrunning hr (timerRunning_of_run hrest hon)) hrest
        rw [hprev] at hnext
        rw [if_pos hr, Nat.zero_add]
        exact hnext
      · have hnext := ih (h.edge hK hrunning hr) hrest
        rw [hprev] at hnext
        rw [if_neg hr, ← Nat.add_assoc]
        exact hnext

end seeking

/-! ## The extremum commands -/

/-- The direction in which the counter runs after a command for target `t`: towards the target, or,
at the target, as it last ran. -/
def heading (t : Int16) (c : Controller) : MoveDirection :=
  if c.mState.position = t then c.mInertMovement else aim t c.mState.position

/-- The counter runs in the direction of `heading`. -/
theorem aimed_heading {t : Int16} (ht : t ≠ nilPosition) (ty : TargetType) (c : Controller) :
    (c.aimed t ty).mInertMovement = heading t c := by
  rw [aimed_mInertMovement]
  unfold heading
  by_cases hp : c.mState.position = t
  · rw [if_pos hp, if_pos (aim_eq_none.mpr (.inr hp.symm))]
  · have haim : aim t c.mState.position ≠ .none := fun h =>
      (aim_eq_none.mp h).elim ht (fun heq => hp heq.symm)
    rw [if_neg hp, if_neg haim]

/-- The number of edges after a command for target `t` until `update_position` takes the target for
reached. At the target itself the next edge does, except that below the lowest target there is
nothing: the counter wraps and comes down on it again. -/
def edgesToTarget (t : Int16) (c : Controller) : ℕ :=
  if c.mState.position ≠ t then (t.toInt - c.mState.position.toInt).natAbs
  else if t = bottomTarget ∧ c.mInertMovement = .down then 65536
  else 1

theorem bottomTarget_toInt : bottomTarget.toInt = -32768 := rfl

theorem topTarget_toInt : topTarget.toInt = 32766 := rfl

/-- Counting down, the lowest target is passed when it is met. -/
theorem firstPassed_bottom (p : Int16) :
    FirstPassed .down bottomTarget p
      (if p = bottomTarget then 65536 else (bottomTarget.toInt - p.toInt).natAbs) := by
  have hlow := p.le_toInt
  have hhigh := p.toInt_lt
  have hnil : bottomTarget ≠ nilPosition := by decide
  have hpassed : ∀ k, Passed .down bottomTarget (posAfter .down p k) ↔
      (p.toInt - k).bmod (2 ^ 16) ≤ -32768 := by
    intro k
    have hsub : p.toInt + MoveDirection.down.sign * k = p.toInt - k := by
      simp only [MoveDirection.sign]
      omega
    simp only [Passed, Int16.le_iff_toInt_le, toInt_posAfter]
    rw [and_iff_right hnil, bottomTarget_toInt, hsub]
  by_cases hp : p = bottomTarget
  · rw [if_pos hp]
    have hint : p.toInt = -32768 := congrArg Int16.toInt hp
    constructor
    · intro k hk
      rw [hpassed, hint, Int.bmod_def]
      split_ifs <;> omega
    · intro k hk
      rw [hpassed, hint, hk]
      decide
  · rw [if_neg hp, bottomTarget_toInt]
    have hne : p.toInt ≠ -32768 := fun h => hp (Int16.toInt_inj.mp h)
    constructor
    · intro k hk
      rw [hpassed, Int.bmod_eq_of_le (by omega) (by omega)]
      omega
    · intro k hk
      rw [hpassed, Int.bmod_eq_of_le (by omega) (by omega)]
      omega

/-- Counting up, the top target is passed when it is met. -/
theorem firstPassed_top {p : Int16} (hp : p.toInt < topTarget.toInt) :
    FirstPassed .up topTarget p (topTarget.toInt - p.toInt).natAbs := by
  have hlow := p.le_toInt
  have hnil : topTarget ≠ nilPosition := by decide
  have hpassed : ∀ k, Passed .up topTarget (posAfter .up p k) ↔
      32766 ≤ (p.toInt + k).bmod (2 ^ 16) := by
    intro k
    have hadd : p.toInt + MoveDirection.up.sign * k = p.toInt + k := by
      simp only [MoveDirection.sign]
      omega
    simp only [Passed, ge_iff_le, Int16.le_iff_toInt_le, toInt_posAfter]
    rw [and_iff_right hnil, topTarget_toInt, hadd]
  rw [topTarget_toInt] at hp ⊢
  constructor
  · intro k hk
    rw [hpassed, Int.bmod_eq_of_le (by omega) (by omega)]
    omega
  · intro k hk
    rw [hpassed, Int.bmod_eq_of_le (by omega) (by omega)]
    omega

/-- At the target, an edge whose comparison holds is the first to pass it. -/
theorem firstPassed_one {d : MoveDirection} {t : Int16} (h : Passed d t (stepPosition d t)) :
    FirstPassed d t t 1 := by
  refine ⟨fun k hk => by omega, fun k hk => ?_⟩
  obtain rfl : k = 0 := by omega
  exact h

/-! ### The position the timeout stores -/

section sanitized

variable {st : ControllerState}

theorem sanitized_extremumMax (h : st.targetType = .extremumMax) :
    sanitized st = ticksUpperLimit := by
  unfold sanitized
  rw [if_pos (.inr h)]

/-- At the bottom, unless the counter is still above the upper limit. -/
theorem sanitized_extremumMin (h : st.targetType = .extremumMin) :
    sanitized st = tickLowerLimit ↔ st.position.toInt ≤ 816 := by
  have hlimits : ticksUpperLimit ≠ tickLowerLimit := by decide
  have hupper : ticksUpperLimit.toInt = 816 := rfl
  unfold sanitized
  simp only [h, gt_iff_lt, Int16.lt_iff_toInt_lt, hupper, reduceCtorEq, or_false, or_true, if_true]
  split_ifs with hp
  · exact iff_of_false hlimits (by omega)
  · exact iff_of_true rfl (by omega)

/-- Without a type the counter is only clamped. -/
theorem sanitized_none (h : st.targetType = .none) :
    (sanitized st).toInt = max 0 (min 816 st.position.toInt) := by
  have hupper : ticksUpperLimit.toInt = 816 := rfl
  have hlower : tickLowerLimit.toInt = 0 := rfl
  unfold sanitized
  simp only [h, gt_iff_lt, Int16.lt_iff_toInt_lt, hupper, hlower, reduceCtorEq, or_false]
  split_ifs with h₁ h₂
  · rw [hupper]
    omega
  · rw [hlower]
    omega
  · omega

end sanitized

/-! ### From the command to the timeout -/

/-- Ticks with the readings `rs` lead from `c₀` to a tick with the reading `r` that is the idle
timeout and leaves `c₂`. -/
def TimesOut (c₀ : Controller) (rs : List UInt32) (r : UInt32) (c₂ : Controller) : Prop :=
  ∃ c₁, controllerMachine.run c₀ (rs.map .tick) = some c₁ ∧
    controllerMachine.step c₁ (.tick r) = some c₂ ∧ r = c₁.mPreviousInpinState ∧ c₁.stalled

/-- From the command to the timeout, in the terms of the move. -/
theorem TimesOut.seeking {c c₂ : Controller} (h : c.Regular) {t : Int16} {ty : TargetType} {K : ℕ}
    {rs : List UInt32} {r : UInt32} (hK : FirstPassed (c.aimed t ty).mInertMovement t c.mState.position K)
    (hpos : 0 < K) (hout : TimesOut (c.aimed t ty) rs r c₂) :
    ∃ c₁, Seeking (c.aimed t ty).mInertMovement t c.mState.position ty K
      (edges c.mPreviousInpinState rs) c₁ ∧ c₂ = c₁.rested := by
  obtain ⟨c₁, hrun, hstep, hr, hs⟩ := hout
  obtain ⟨hrunning, rfl⟩ := step_tick_eq_some.mp hstep
  have hstart : Seeking (c.aimed t ty).mInertMovement t c.mState.position ty K 0 (c.aimed t ty) :=
    ⟨h.aimed t ty, rfl, rfl, fun _ => ⟨rfl, rfl⟩, fun hle => by omega⟩
  have hend := hstart.run hK hrun hrunning
  rw [Nat.zero_add] at hend
  refine ⟨c₁, hend, ?_⟩
  rcases hend.regular.tick_cases_of_eq hr with ⟨hs', -⟩ | ⟨-, heq⟩
  · exact absurd hs hs'
  · exact heq

/-- Ticks do not raise a motor pin. -/
theorem run_ticks_low {c c' : Controller} (h : c.Regular) {f : Pins → Bool}
    (hoff : f Pins.off = false) (hlow : f c.pins = false) {rs : List UInt32}
    (hrun : controllerMachine.run c (rs.map .tick) = some c') : f c'.pins = false := by
  refine (h.run_ticks (I := fun x => f x.pins = false) ?_ hlow hrun).2
  intro x r hx hx' hrunning
  rcases hx.tick_pins hrunning r with hp | hp
  · rw [hp, hx']
  · rw [hp, hoff]

/-- The counter, `rs` after a command for target `t`. -/
def finalCount (t : Int16) (c : Controller) (rs : List UInt32) : ℤ :=
  (c.mState.position.toInt + (heading t c).sign * edges c.mPreviousInpinState rs).bmod (2 ^ 16)

theorem firstPassed_heading_bottom {c : Controller} (hd : heading bottomTarget c ≠ .none) :
    FirstPassed (heading bottomTarget c) bottomTarget c.mState.position
      (edgesToTarget bottomTarget c) := by
  unfold edgesToTarget
  by_cases hp : c.mState.position = bottomTarget
  · have hhead : heading bottomTarget c = c.mInertMovement := if_pos hp
    rw [if_neg (not_not.mpr hp), hhead, hp]
    cases hi : c.mInertMovement with
    | up =>
        rw [if_neg (by simp)]
        exact firstPassed_one (by decide)
    | down =>
        rw [if_pos (by simp)]
        have hfirst := firstPassed_bottom bottomTarget
        rwa [if_pos rfl] at hfirst
    | none => exact absurd (hhead.trans hi) hd
  · have hlow := c.mState.position.le_toInt
    have hne : c.mState.position.toInt ≠ -32768 := fun h => hp (Int16.toInt_inj.mp h)
    have hdown : aim bottomTarget c.mState.position = .down := by
      refine aim_eq_down.mpr ⟨by decide, ?_⟩
      rw [Int16.lt_iff_toInt_lt, bottomTarget_toInt]
      omega
    have hhead : heading bottomTarget c = .down := (if_neg hp).trans hdown
    rw [if_pos hp, hhead]
    have hfirst := firstPassed_bottom c.mState.position
    rwa [if_neg hp] at hfirst

theorem firstPassed_heading_top {c : Controller} (hd : heading topTarget c ≠ .none)
    (hp : c.mState.position.toInt ≠ 32767) :
    FirstPassed (heading topTarget c) topTarget c.mState.position
      (edgesToTarget topTarget c) := by
  have hbottom : topTarget ≠ bottomTarget := by decide
  unfold edgesToTarget
  by_cases htop : c.mState.position = topTarget
  · have hhead : heading topTarget c = c.mInertMovement := if_pos htop
    rw [if_neg (not_not.mpr htop), if_neg (fun h => hbottom h.1), hhead, htop]
    cases hi : c.mInertMovement with
    | up => exact firstPassed_one (by decide)
    | down => exact firstPassed_one (by decide)
    | none => exact absurd (hhead.trans hi) hd
  · have hhigh := c.mState.position.toInt_lt
    have hne : c.mState.position.toInt ≠ 32766 := fun h => htop (Int16.toInt_inj.mp h)
    have hlt : c.mState.position.toInt < topTarget.toInt := by
      rw [topTarget_toInt]
      omega
    have hup : aim topTarget c.mState.position = .up :=
      aim_eq_up.mpr ⟨by decide, Int16.lt_iff_toInt_lt.mpr hlt⟩
    have hhead : heading topTarget c = .up := (if_neg htop).trans hup
    rw [if_pos htop, hhead]
    exact firstPassed_top hlt

theorem edgesToTarget_pos (t : Int16) (c : Controller) : 0 < edgesToTarget t c := by
  unfold edgesToTarget
  split_ifs with hp h
  · have hne : c.mState.position.toInt ≠ t.toInt := fun h => hp (Int16.toInt_inj.mp h)
    omega
  · decide
  · decide

/-- A timeout is only reached with a direction to count in. -/
theorem TimesOut.heading_ne_none {c c₂ : Controller} (h : c.Regular) {t : Int16}
    (ht : t ≠ nilPosition) {ty : TargetType} {rs : List UInt32} {r : UInt32}
    (hout : TimesOut (c.aimed t ty) rs r c₂) : heading t c ≠ .none := by
  obtain ⟨c₁, hrun, hstep, -⟩ := hout
  have hrunning := timerRunning_of_run hrun (step_tick_eq_some.mp hstep).1
  rw [← aimed_heading ht ty c]
  exact (h.aimed t ty).running.mp hrunning

/-- The state at the timeout. -/
theorem TimesOut.position {c c₂ : Controller} (h : c.Regular) {t : Int16} (ht : t ≠ nilPosition)
    {ty : TargetType} {rs : List UInt32} {r : UInt32}
    (hK : FirstPassed (heading t c) t c.mState.position (edgesToTarget t c))
    (hout : TimesOut (c.aimed t ty) rs r c₂) :
    ∃ st : ControllerState, c₂.mState.position = sanitized st ∧
      st.position.toInt = finalCount t c rs ∧
      (edges c.mPreviousInpinState rs < edgesToTarget t c → st.targetType = ty) ∧
      (edgesToTarget t c ≤ edges c.mPreviousInpinState rs → st.targetType = .none) := by
  rw [← aimed_heading ht ty c] at hK
  obtain ⟨c₁, hseek, rfl⟩ := hout.seeking h hK (edgesToTarget_pos t c)
  refine ⟨c₁.mState, rfl, ?_, fun hlt => (hseek.aiming hlt).2, fun hle => (hseek.cleared hle).2⟩
  rw [hseek.position, toInt_posAfter, aimed_heading ht ty c]
  rfl

/-! ### When the command calibrates -/

/-- No state from `c₀` on, along ticks with the readings `rs`, has the pin `f` high. -/
def NeverHigh (f : Pins → Bool) (c₀ : Controller) (rs : List UInt32) : Prop :=
  ∀ pre c', pre <+: rs → controllerMachine.run c₀ (pre.map .tick) = some c' → f c'.pins = false

theorem neverHigh_iff {c₀ : Controller} (h : c₀.Regular) {f : Pins → Bool}
    (hoff : f Pins.off = false) (rs : List UInt32) :
    NeverHigh f c₀ rs ↔ f c₀.pins = false := by
  constructor
  · exact fun hn => hn [] c₀ (List.nil_prefix) rfl
  · exact fun hlow pre c' _ hrun => run_ticks_low h hoff hlow hrun

theorem driving_up_eq_false {d : MoveDirection} : (Pins.driving d).up = false ↔ d ≠ .up := by
  cases d <;> simp [Pins.driving, Pins.off]

theorem driving_down_eq_false {d : MoveDirection} : (Pins.driving d).down = false ↔ d ≠ .down := by
  cases d <;> simp [Pins.driving, Pins.off]

/-- The readings `rs` let the bottom command calibrate: the sentinel is not passed, and the counter
has come down to the upper limit or below; or it is passed, and the counter has wrapped or coasted
to `0` or below. -/
def CalibratesBottom (c : Controller) (rs : List UInt32) : Prop :=
  (edges c.mPreviousInpinState rs < edgesToTarget bottomTarget c ∧
      finalCount bottomTarget c rs ≤ 816) ∨
    (edgesToTarget bottomTarget c ≤ edges c.mPreviousInpinState rs ∧
      finalCount bottomTarget c rs ≤ 0)

/-- The readings `rs` let the top command calibrate: the sentinel lies above or at the counter, and
it is not passed, or the counter ends at the upper limit or above. -/
def CalibratesTop (c : Controller) (rs : List UInt32) : Prop :=
  c.mState.position.toInt ≠ 32767 ∧
    (edges c.mPreviousInpinState rs < edgesToTarget topTarget c ∨
      816 ≤ finalCount topTarget c rs)

theorem command_bottom {c : Controller} (h : c.Regular) :
    c.command (.extremum ctrlExtremumPosBottom) = c.aimed bottomTarget .extremumMin :=
  setTargetPos_eq_aimed h.cb bottomTarget .extremumMin

theorem command_top {c : Controller} (h : c.Regular) :
    c.command (.extremum ctrlExtremumPosTop) = c.aimed topTarget .extremumMax :=
  setTargetPos_eq_aimed h.cb topTarget .extremumMax

theorem position_of_bottom {c c₂ : Controller} (h : c.Regular) {rs : List UInt32} {r : UInt32}
    (hout : TimesOut (c.aimed bottomTarget .extremumMin) rs r c₂) :
    c₂.mState.position = tickLowerLimit ↔ CalibratesBottom c rs := by
  have ht : bottomTarget ≠ nilPosition := by decide
  obtain ⟨st, hpos, hcount, hbefore, hafter⟩ :=
    hout.position h ht (firstPassed_heading_bottom (hout.heading_ne_none h ht))
  have hlower : tickLowerLimit.toInt = 0 := rfl
  unfold CalibratesBottom
  rw [hpos]
  rcases Nat.lt_or_ge (edges c.mPreviousInpinState rs) (edgesToTarget bottomTarget c) with hlt | hge
  · rw [sanitized_extremumMin (hbefore hlt), hcount]
    omega
  · rw [← Int16.toInt_inj, sanitized_none (hafter hge), hcount, hlower]
    omega

theorem position_of_top {c c₂ : Controller} (h : c.Regular)
    (hp : c.mState.position.toInt ≠ 32767) {rs : List UInt32} {r : UInt32}
    (hout : TimesOut (c.aimed topTarget .extremumMax) rs r c₂) :
    c₂.mState.position = ticksUpperLimit ↔ CalibratesTop c rs := by
  have ht : topTarget ≠ nilPosition := by decide
  obtain ⟨st, hpos, hcount, hbefore, hafter⟩ :=
    hout.position h ht (firstPassed_heading_top (hout.heading_ne_none h ht) hp)
  have hupper : ticksUpperLimit.toInt = 816 := rfl
  unfold CalibratesTop
  rw [hpos]
  rcases Nat.lt_or_ge (edges c.mPreviousInpinState rs) (edgesToTarget topTarget c) with hlt | hge
  · exact iff_of_true (sanitized_extremumMax (hbefore hlt)) ⟨hp, .inl hlt⟩
  · rw [← Int16.toInt_inj, sanitized_none (hafter hge), hcount, hupper]
    omega

/-- **When an extremum command calibrates.** From any reachable state, for any readings up to the
idle timeout: the bottom command never drives the motor up, and the timeout sets the counter to the
lower limit exactly if `CalibratesBottom`; the top command never drives it down and the timeout sets
the counter to the upper limit exactly if `CalibratesTop`. With the counter on the sentinel and the
timer stopped the command starts nothing, and no timeout ever comes. -/
theorem extremum_calibrates_iff {c : Controller} (h : controllerMachine.Reachable c)
    (rs : List UInt32) (r : UInt32) (c₂ : Controller) :
    (TimesOut (c.command (.extremum ctrlExtremumPosBottom)) rs r c₂ →
      (NeverHigh (·.up) (c.command (.extremum ctrlExtremumPosBottom)) (rs ++ [r]) ∧
          c₂.mState.position = tickLowerLimit ↔ CalibratesBottom c rs)) ∧
    (TimesOut (c.command (.extremum ctrlExtremumPosTop)) rs r c₂ →
      (NeverHigh (·.down) (c.command (.extremum ctrlExtremumPosTop)) (rs ++ [r]) ∧
          c₂.mState.position = ticksUpperLimit ↔ CalibratesTop c rs)) := by
  have hreg := controllerMachine_regular h
  rw [command_bottom hreg, command_top hreg]
  constructor
  · intro hout
    have hlow : aim bottomTarget c.mState.position ≠ .up := by
      intro hup
      have hlt := Int16.lt_iff_toInt_lt.mp (aim_eq_up.mp hup).2
      have hle := c.mState.position.le_toInt
      rw [bottomTarget_toInt] at hlt
      omega
    rw [neverHigh_iff (hreg.aimed _ _) rfl, position_of_bottom hreg hout, aimed_pins,
      driving_up_eq_false]
    exact and_iff_right hlow
  · intro hout
    rw [neverHigh_iff (hreg.aimed _ _) rfl, aimed_pins, driving_down_eq_false]
    by_cases hp : c.mState.position.toInt = 32767
    · have hdown : aim topTarget c.mState.position = .down := by
        refine aim_eq_down.mpr ⟨by decide, ?_⟩
        rw [Int16.lt_iff_toInt_lt, topTarget_toInt, hp]
        decide
      exact iff_of_false (fun hboth => hboth.1 hdown) fun hcal => hcal.1 hp
    · have hlow : aim topTarget c.mState.position ≠ .down := by
        intro hdown
        have hlt := Int16.lt_iff_toInt_lt.mp (aim_eq_down.mp hdown).2
        have hhigh := c.mState.position.toInt_lt
        rw [topTarget_toInt] at hlt
        omega
      rw [position_of_top hreg hp hout]
      exact and_iff_right hlow

/-- With no edge at all, as at the mechanical end, the 25th tick after the command is the idle
timeout. -/
theorem timesOut_stuck (p : Int16) (e : UInt8) (c₁ : Controller)
    (hrun : controllerMachine.run ((boot p 1).command (.extremum e))
      ((List.replicate 24 1).map .tick) = some c₁)
    (hon : c₁.timerRunning = true) (hprev : c₁.mPreviousInpinState = 1) (hs : c₁.stalled) :
    TimesOut ((boot p 1).command (.extremum e)) (List.replicate 24 1) 1
      (c₁.timerTimeoutHandler 1) :=
  ⟨c₁, hrun, step_tick hon 1, hprev.symm, hs⟩

/-- From position `100`, the bottom command sets the counter to `0`. -/
theorem extremum_calibrates_iff_stuck :
    ∃ c₂, TimesOut ((boot 100 1).command (.extremum ctrlExtremumPosBottom)) (List.replicate 24 1) 1
        c₂ ∧ c₂.mState.position = tickLowerLimit := by
  have hout := timesOut_stuck 100 ctrlExtremumPosBottom _ rfl rfl rfl (by decide)
  refine ⟨_, hout, ?_⟩
  have hiff := (extremum_calibrates_iff (Machine.Reachable.init ⟨100, 1, rfl⟩) (List.replicate 24 1)
    1 _).1 hout
  exact (hiff.mpr (.inl (by decide))).2

/-- From position `2000`, where the counter is far above the upper limit, it sets it to `816`. -/
theorem not_forall_extremum_calibrates :
    ¬∀ c, controllerMachine.Reachable c → ∀ rs r c₂,
      (TimesOut (c.command (.extremum ctrlExtremumPosBottom)) rs r c₂ →
        NeverHigh (·.up) (c.command (.extremum ctrlExtremumPosBottom)) (rs ++ [r]) ∧
          c₂.mState.position = tickLowerLimit) ∧
      (TimesOut (c.command (.extremum ctrlExtremumPosTop)) rs r c₂ →
        NeverHigh (·.down) (c.command (.extremum ctrlExtremumPosTop)) (rs ++ [r]) ∧
          c₂.mState.position = ticksUpperLimit) := by
  intro h
  have hout := timesOut_stuck 2000 ctrlExtremumPosBottom _ rfl rfl rfl (by decide)
  have hlower := ((h _ (Machine.Reachable.init ⟨2000, 1, rfl⟩) (List.replicate 24 1) 1 _).1 hout).2
  exact absurd hlower (by decide)

end Controller

end Acromegaly
