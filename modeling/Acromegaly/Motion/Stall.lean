import Acromegaly.Motion.Termination

/-!
# Stall protection

A driven motor whose input does not change is to be switched off by the idle timeout, at the latest
on the 25th tick. `set_movement_dir` restarts the idle counter whenever it energises the motor, also
in the direction in which the motor already runs. So a client that repeats its command keeps a
blocked motor on for as long as it likes (`not_forall_stall_bounded`). While the motor stays on in one
direction, this is the only way: as long as no such command arrives after a tick without an edge, the
protection holds, and the first one that does defeats it (`stall_bounded_iff`). A stop with the
command after it clears the idle counter as well, but then the motor has been off in between.
-/

namespace Acromegaly

open Found

/-! ## Stalled stretches of a run -/

/-- The event is a tick of the controller's timer. -/
def FirmwareEvent.isTick : FirmwareEvent → Bool
  | .tick _ => true
  | _ => false

/-- The number of ticks among some events. -/
def tickCount (es : List FirmwareEvent) : ℕ := es.countP FirmwareEvent.isTick

/-- The event is not a tick whose reading differs from the previous one. -/
def FirmwareEvent.SeesNoEdge (c : Controller) : FirmwareEvent → Prop
  | .tick r => r = c.mPreviousInpinState
  | _ => True

/-- The event is a control write that sets a target in the direction in which the motor already
runs. -/
def FirmwareEvent.Restarts (g : Geometry) (w : Firmware) : FirmwareEvent → Prop
  | .ble (.write e) => ∃ cmd t ty, e.command? g w.mCtrlService = some cmd ∧
      cmd.sets = some (t, ty) ∧
      Controller.aim t w.controller.mState.position = w.controller.mState.movement
  | _ => False

theorem FirmwareEvent.tick_of_isTick {e : FirmwareEvent} (h : e.isTick = true) :
    ∃ r, e = .tick r :=
  match e, h with
  | .tick r, _ => ⟨r, rfl⟩

theorem FirmwareEvent.Restarts.write {g : Geometry} {w : Firmware} {e : FirmwareEvent}
    (h : e.Restarts g w) : ∃ we, e = .ble (.write we) :=
  match e, h with
  | .ble (.write we), _ => ⟨we, rfl⟩

namespace Firmware

/-- At every event of the run the motor is energised in direction `d`, and no tick sees an edge. -/
def Stalling (g : Geometry) (d : MoveDirection) (w : Firmware) (es : List FirmwareEvent) : Prop :=
  (firmwareMachine g).Meets
    (fun w e => w.controller.pins = Pins.driving d ∧ e.SeesNoEdge w.controller) w es

/-- No write restarts the motor in its direction once a tick has passed. -/
def RestartsFirst (g : Geometry) (w : Firmware) (es : List FirmwareEvent) : Prop :=
  ∀ pre e post w₁, es = pre ++ e :: post → (firmwareMachine g).run w pre = some w₁ →
    e.Restarts g w₁ → tickCount pre = 0

variable {g : Geometry} {d : MoveDirection}

/-- A motor that is not energised in the direction has no stalled stretch ahead. -/
theorem Stalling.eq_nil {w : Firmware} {es : List FirmwareEvent} (h : Stalling g d w es)
    (hoff : w.controller.pins ≠ Pins.driving d) : es = [] := by
  cases es with
  | nil => rfl
  | cons e es => exact absurd (Machine.meets_cons.mp h).1.1 hoff

end Firmware

/-! ## One event -/

theorem Pins.driving_injective {d d' : MoveDirection} (h : Pins.driving d = Pins.driving d') :
    d = d' := by
  cases d <;> cases d' <;> first | rfl | exact absurd h (by decide)

namespace Controller

theorem Regular.movement_of_driving {c : Controller} (h : c.Regular) {d : MoveDirection}
    (hon : c.pins = Pins.driving d) : c.mState.movement = d := by
  rw [h.pins] at hon
  exact Pins.driving_injective hon

/-- The timer supervises a driven motor. -/
theorem Regular.timerRunning_of_driving {c : Controller} (h : c.Regular) {d : MoveDirection}
    (hd : d ≠ .none) (hon : c.pins = Pins.driving d) : c.timerRunning = true := by
  have hm := h.movement_of_driving hon
  apply h.running.mpr
  rw [(h.driven (by rwa [hm])).1, hm]
  exact hd

/-- A tick without an edge uses up an idle tick or switches the motor off. -/
theorem Regular.tick_stalled {c : Controller} (h : c.Regular) {d : MoveDirection} (hd : d ≠ .none)
    (hon : c.pins = Pins.driving d) :
    (c.timerTimeoutHandler c.mPreviousInpinState).pins = Pins.off ∨
      c.timerTimeoutHandler c.mPreviousInpinState = c.unmoved ∧
        c.unmoved.mIdleCounter.toNat = c.mIdleCounter.toNat + 1 := by
  have hrun := h.timerRunning_of_driving hd hon
  rcases h.tick_cases_of_eq rfl with ⟨-, heq⟩ | ⟨-, heq⟩
  · right
    have hle : c.mIdleCounter.toNat ≤ 24 := UInt8.le_iff_toNat_le.mp (h.idle hrun)
    refine ⟨heq, ?_⟩
    rw [unmoved_mIdleCounter, UInt8.toNat_add, UInt8.toNat_one]
    omega
  · rw [heq]
    exact .inl rfl

/-- Below the threshold a tick without an edge is no timeout. -/
theorem Regular.tick_stalled_of_lt {c : Controller} (h : c.Regular)
    (hlt : c.mIdleCounter.toNat < 24) :
    c.timerTimeoutHandler c.mPreviousInpinState = c.unmoved := by
  rcases h.tick_cases_of_eq rfl with ⟨-, heq⟩ | ⟨hs, -⟩
  · exact heq
  · have h24 : 24 ≤ c.mIdleCounter.toNat := UInt8.le_iff_toNat_le.mp hs.2
    omega

end Controller

namespace Firmware

variable {g : Geometry} {d : MoveDirection} {w w' : Firmware} {e : FirmwareEvent}

/-- What a write does to a motor that is energised and stays so in the same direction. -/
theorem stalled_write {c : Controller} (hreg : c.Regular) (hd : d ≠ .none)
    (hon : c.pins = Pins.driving d) {cmd : Command} (hon' : (c.command cmd).pins = Pins.driving d) :
    (c.command cmd).mPreviousInpinState = c.mPreviousInpinState ∧
      ((∃ t ty, cmd.sets = some (t, ty) ∧ Controller.aim t c.mState.position = c.mState.movement ∧
          (c.command cmd).mIdleCounter = 0) ∨
        (cmd.sets = none ∧ (c.command cmd).mIdleCounter = c.mIdleCounter)) := by
  rcases hcmd : cmd.sets with _ | ⟨t, ty⟩
  · rw [Controller.command_of_sets_none hcmd]
    exact ⟨rfl, .inr ⟨rfl, rfl⟩⟩
  · rw [hreg.command_of_sets hcmd] at hon' ⊢
    have haim : Controller.aim t c.mState.position = d := Pins.driving_injective hon'
    refine ⟨rfl, .inl ⟨t, ty, rfl, ?_, ?_⟩⟩
    · rw [haim, hreg.movement_of_driving hon]
    · rw [Controller.aimed_mIdleCounter, haim, if_neg hd]

/-- What one event of a stalled stretch does, if it leaves the motor on: a tick adds one to the idle
counter, a restart clears it, and nothing else touches it. -/
theorem stalled_step (hreg : w.controller.Regular) (hd : d ≠ .none)
    (hon : w.controller.pins = Pins.driving d) (hedge : e.SeesNoEdge w.controller)
    (hstep : (firmwareMachine g).step w e = some w') (hon' : w'.controller.pins = Pins.driving d) :
    w'.controller.mPreviousInpinState = w.controller.mPreviousInpinState ∧
    ((e.isTick = true ∧
        w'.controller.mIdleCounter.toNat = w.controller.mIdleCounter.toNat + 1) ∨
      (e.isTick = false ∧ e.Restarts g w ∧ w'.controller.mIdleCounter = 0) ∨
      (e.isTick = false ∧ ¬e.Restarts g w ∧
        w'.controller.mIdleCounter = w.controller.mIdleCounter)) := by
  rcases step_controller g hstep with ⟨htick, hwrite, hc⟩ | ⟨r, rfl, -, hc⟩ | ⟨we, rfl, hc⟩
  · have hnot : e.isTick = false := by
      by_contra h
      obtain ⟨r, he⟩ := FirmwareEvent.tick_of_isTick (Bool.eq_true_of_not_eq_false h)
      exact htick r he
    have hne : ¬e.Restarts g w := by
      intro h
      obtain ⟨we, he⟩ := h.write
      exact hwrite we he
    rw [hc]
    exact ⟨rfl, .inr (.inr ⟨hnot, hne, rfl⟩)⟩
  · have hr : r = w.controller.mPreviousInpinState := hedge
    rw [hc, hr] at hon' ⊢
    rcases hreg.tick_stalled hd hon with hoff | ⟨heq, hidle⟩
    · have hdrive : Pins.driving .none = Pins.driving d := hoff.symm.trans hon'
      exact absurd (Pins.driving_injective hdrive).symm hd
    · rw [heq]
      exact ⟨rfl, .inl ⟨rfl, hidle⟩⟩
  · rw [bleCtrlServiceOnWrite_eq] at hc
    simp only [FirmwareEvent.Restarts]
    cases hcmd : we.command? g w.mCtrlService with
    | none =>
        rw [hcmd] at hc
        rw [hc]
        exact ⟨rfl, .inr (.inr ⟨rfl, by simp, rfl⟩)⟩
    | some cmd =>
        rw [hcmd] at hc
        rw [hc] at hon' ⊢
        obtain ⟨hprev, hcases⟩ := stalled_write hreg hd hon hon'
        refine ⟨hprev, .inr ?_⟩
        rcases hcases with ⟨t, ty, hsets, haim, hidle⟩ | ⟨hsets, hidle⟩
        · exact .inl ⟨rfl, ⟨cmd, t, ty, rfl, hsets, haim⟩, hidle⟩
        · refine .inr ⟨rfl, ?_, hidle⟩
          rintro ⟨_, t, ty, ⟨⟩, hsets', -⟩
          rw [hsets] at hsets'
          cases hsets'

/-! ## Stretches -/

theorem tickCount_cons (e : FirmwareEvent) (es : List FirmwareEvent) :
    tickCount (e :: es) = tickCount es + if e.isTick = true then 1 else 0 :=
  List.countP_cons

theorem tickCount_append (es fs : List FirmwareEvent) :
    tickCount (es ++ fs) = tickCount es + tickCount fs :=
  List.countP_append

theorem tickCount_replicate (n : ℕ) (r : UInt32) :
    tickCount (List.replicate n (.tick r)) = n := by
  unfold tickCount
  rw [List.countP_replicate]
  exact if_pos rfl

/-- A stalled stretch that leaves the motor on has found it on. -/
theorem Stalling.on {es : List FirmwareEvent} (hs : Stalling g d w es)
    (hrun : (firmwareMachine g).run w es = some w') (hon : w'.controller.pins = Pins.driving d) :
    w.controller.pins = Pins.driving d := by
  by_contra hoff
  have hnil := hs.eq_nil hoff
  subst hnil
  cases hrun
  exact hoff hon

/-- The first event of a stalled stretch happens, and either it is the last one or it leaves the
motor on. -/
theorem Stalling.cons (h : (firmwareMachine g).Reachable w) (hd : d ≠ .none)
    {es : List FirmwareEvent} (hs : Stalling g d w (e :: es)) :
    ∃ w', (firmwareMachine g).step w e = some w' ∧ Stalling g d w' es ∧
      (es = [] ∨ w'.controller.pins = Pins.driving d) := by
  obtain ⟨⟨hon, -⟩, hrest⟩ := Machine.meets_cons.mp hs
  have hrun := (reachable_regular h).timerRunning_of_driving hd hon
  have hsome : ∃ w', (firmwareMachine g).step w e = some w' := by
    cases e with
    | mainStep => exact ⟨_, rfl⟩
    | tick r => exact ⟨_, (step_tick_eq_some g).mpr ⟨hrun, rfl⟩⟩
    | ble evt => exact ⟨_, rfl⟩
  obtain ⟨w', hstep⟩ := hsome
  refine ⟨w', hstep, hrest w' hstep, ?_⟩
  by_cases hon' : w'.controller.pins = Pins.driving d
  · exact .inr hon'
  · exact .inl ((show Stalling g d w' es from hrest w' hstep).eq_nil hon')

/-- With the motor on the idle counter is at most at the threshold. -/
theorem idle_le (h : (firmwareMachine g).Reachable w) (hd : d ≠ .none)
    (hon : w.controller.pins = Pins.driving d) : w.controller.mIdleCounter.toNat ≤ 24 := by
  have hreg := reachable_regular h
  exact UInt8.le_iff_toNat_le.mp (hreg.idle (hreg.timerRunning_of_driving hd hon))

/-- Without restarts a stalled stretch has at most the ticks the idle counter has left, and the one
that switches the motor off. -/
theorem tickCount_le_of_no_restart (h : (firmwareMachine g).Reachable w) (hd : d ≠ .none)
    {es : List FirmwareEvent} (hon : w.controller.pins = Pins.driving d)
    (hs : Stalling g d w es)
    (hno : (firmwareMachine g).Meets (fun w e => ¬e.Restarts g w) w es) :
    tickCount es + w.controller.mIdleCounter.toNat ≤ 25 := by
  induction es generalizing w with
  | nil =>
      have hidle := idle_le h hd hon
      have hzero : tickCount [] = 0 := rfl
      omega
  | cons e es ih =>
      obtain ⟨w', hstep, hs', hnext⟩ := hs.cons h hd
      obtain ⟨hne, hno'⟩ := Machine.meets_cons.mp hno
      rw [tickCount_cons]
      rcases hnext with rfl | hon'
      · have hidle := idle_le h hd hon
        have hzero : tickCount [] = 0 := rfl
        split_ifs
        · omega
        · omega
      · have hle := ih (h.step hstep) hon' hs' (hno' w' hstep)
        obtain ⟨-, hcases⟩ := stalled_step (reachable_regular h) hd hon
          (Machine.meets_cons.mp hs).1.2 hstep hon'
        rcases hcases with ⟨htick, hidle⟩ | ⟨-, hrestart, -⟩ | ⟨htick, -, hidle⟩
        · rw [if_pos htick]
          omega
        · exact absurd hrestart hne
        · rw [if_neg (by simp [htick]), ← hidle]
          exact hle

/-- Restarts that come before the first tick change nothing about this. -/
theorem tickCount_le_of_restartsFirst (h : (firmwareMachine g).Reachable w) (hd : d ≠ .none)
    {es : List FirmwareEvent} (hs : Stalling g d w es) (hfirst : RestartsFirst g w es) :
    tickCount es ≤ 25 := by
  induction es generalizing w with
  | nil => exact Nat.zero_le 25
  | cons e es ih =>
      obtain ⟨w', hstep, hs', hnext⟩ := hs.cons h hd
      have hfirst' : RestartsFirst g w' es := by
        intro pre e' post w₁ hes hrun hrestart
        have hcount := hfirst (e :: pre) e' post w₁ (by rw [hes]; rfl)
          (Machine.run_cons_eq_some.mpr ⟨w', hstep, hrun⟩) hrestart
        rw [tickCount_cons] at hcount
        omega
      rw [tickCount_cons]
      split_ifs with htick
      · -- the first tick: from here on there is no restart
        rcases hnext with rfl | hon'
        · have hzero : tickCount [] = 0 := rfl
          omega
        · have hno : (firmwareMachine g).Meets (fun w e => ¬e.Restarts g w) w' es := by
            apply Machine.meets_of_forall_split
            intro pre e' post w₁ hes hrun hrestart
            have hcount := hfirst (e :: pre) e' post w₁ (by rw [hes]; rfl)
              (Machine.run_cons_eq_some.mpr ⟨w', hstep, hrun⟩) hrestart
            rw [tickCount_cons, if_pos htick] at hcount
            omega
          have hle := tickCount_le_of_no_restart (h.step hstep) hd hon' hs' hno
          obtain ⟨-, hcases⟩ := stalled_step (reachable_regular h) hd
            (Machine.meets_cons.mp hs).1.1 (Machine.meets_cons.mp hs).1.2 hstep hon'
          rcases hcases with ⟨-, hidle⟩ | ⟨hother, -⟩ | ⟨hother, -⟩
          · omega
          · rw [htick] at hother
            cases hother
          · rw [htick] at hother
            cases hother
      · exact ih (h.step hstep) hs' hfirst'

/-- Along a stalled stretch that leaves the motor on, the idle counter grows by one tick at a time. -/
theorem idle_le_add_tickCount (h : (firmwareMachine g).Reachable w) (hd : d ≠ .none)
    {es : List FirmwareEvent} (hs : Stalling g d w es)
    (hrun : (firmwareMachine g).run w es = some w') (hon : w'.controller.pins = Pins.driving d) :
    w'.controller.mPreviousInpinState = w.controller.mPreviousInpinState ∧
      w'.controller.mIdleCounter.toNat ≤ w.controller.mIdleCounter.toNat + tickCount es := by
  induction es generalizing w with
  | nil =>
      cases hrun
      exact ⟨rfl, Nat.le_add_right _ _⟩
  | cons e es ih =>
      obtain ⟨w₁, hstep, hrest⟩ := Machine.run_cons_eq_some.mp hrun
      obtain ⟨⟨hon₀, hedge⟩, hs'⟩ := Machine.meets_cons.mp hs
      have hs₁ : Stalling g d w₁ es := hs' w₁ hstep
      have hon₁ := hs₁.on hrest hon
      obtain ⟨hprev, hle⟩ := ih (h.step hstep) hs₁ hrest
      obtain ⟨hprev₁, hcases⟩ := stalled_step (reachable_regular h) hd hon₀ hedge hstep hon₁
      refine ⟨hprev.trans hprev₁, ?_⟩
      rw [tickCount_cons]
      rcases hcases with ⟨htick, hidle⟩ | ⟨-, -, hidle⟩ | ⟨-, -, hidle⟩
      · rw [if_pos htick]
        omega
      · rw [hidle, UInt8.toNat_zero] at hle
        omega
      · rw [hidle] at hle
        omega

/-- After a restart the idle counter has counted the ticks since. -/
theorem idle_le_of_restart (h : (firmwareMachine g).Reachable w) (hd : d ≠ .none)
    {post : List FirmwareEvent} (hs : Stalling g d w (e :: post)) (hrestart : e.Restarts g w)
    (hrun : (firmwareMachine g).run w (e :: post) = some w')
    (hon : w'.controller.pins = Pins.driving d) :
    w'.controller.mIdleCounter.toNat ≤ tickCount post := by
  obtain ⟨w₁, hstep, hpost⟩ := Machine.run_cons_eq_some.mp hrun
  obtain ⟨⟨hon₀, hedge⟩, hrest⟩ := Machine.meets_cons.mp hs
  have hs₁ : Stalling g d w₁ post := hrest w₁ hstep
  obtain ⟨-, hcases⟩ := stalled_step (reachable_regular h) hd hon₀ hedge hstep (hs₁.on hpost hon)
  obtain ⟨-, hle⟩ := idle_le_add_tickCount (h.step hstep) hd hs₁ hpost hon
  rcases hcases with ⟨htick, -⟩ | ⟨-, -, hzero⟩ | ⟨-, hne, -⟩
  · obtain ⟨we, rfl⟩ := hrestart.write
    cases htick
  · rw [hzero, UInt8.toNat_zero, Nat.zero_add] at hle
    exact hle
  · exact absurd hrestart hne

/-- With `n` idle ticks left, the last of which may be the timeout, the motor is on at every one of
`n` ticks without an edge. -/
theorem stalling_ticks (h : (firmwareMachine g).Reachable w)
    (hon : w.controller.pins = Pins.driving d) {n : ℕ}
    (hn : w.controller.mIdleCounter.toNat + n ≤ 25) :
    Stalling g d w (List.replicate n (.tick w.controller.mPreviousInpinState)) := by
  induction n generalizing w with
  | zero => trivial
  | succ n ih =>
      rw [List.replicate_succ]
      refine ⟨⟨hon, rfl⟩, fun w' hstep => ?_⟩
      cases n with
      | zero => trivial
      | succ n =>
          have hreg := reachable_regular h
          have hlt : w.controller.mIdleCounter.toNat < 24 := by omega
          have hc : w'.controller = w.controller.unmoved := by
            rw [← hreg.tick_stalled_of_lt hlt, ← ((step_tick_eq_some g).mp hstep).2]
            rfl
          have hidle : w'.controller.mIdleCounter.toNat = w.controller.mIdleCounter.toNat + 1 := by
            rw [hc, Controller.unmoved_mIdleCounter, UInt8.toNat_add, UInt8.toNat_one]
            omega
          have hprev : w'.controller.mPreviousInpinState = w.controller.mPreviousInpinState := by
            rw [hc]
            rfl
          have hnext := ih (h.step hstep) (by rw [hc]; exact hon) (by omega)
          rw [hprev] at hnext
          exact hnext

/-- Ticks are no restarts. -/
theorem RestartsFirst.append_ticks {es : List FirmwareEvent} (h : RestartsFirst g w es) (n : ℕ)
    (r : UInt32) : RestartsFirst g w (es ++ List.replicate n (.tick r)) := by
  intro pre e post w₁ hes hrun hrestart
  have hnot : e ∉ List.replicate n (FirmwareEvent.tick r) := by
    intro hmem
    rw [List.eq_of_mem_replicate hmem] at hrestart
    exact hrestart
  rcases List.append_eq_append_iff.mp hes with ⟨more, -, hticks⟩ | ⟨more, hpre, hrest⟩
  · exact absurd (by rw [hticks]; simp) hnot
  · cases more with
    | nil => exact absurd (by rw [List.nil_append] at hrest; rw [← hrest]; simp) hnot
    | cons e' more =>
        cases hrest
        exact h pre e more w₁ hpre hrun hrestart

/-! ## The bound -/

/-- **When stall protection holds.** From any reachable state, in any interleaving of writes, ticks
and other events: a stretch in which the motor is energised in one direction and no tick sees an
edge has at most 25 ticks, the one that switches the motor off included, as long as no write
restarts the motor in that direction after a tick of the stretch. And this is exact: after a stretch
that leaves the motor on, every number of further ticks keeps to the bound exactly if there was no
such write. -/
theorem stall_bounded_iff (h : (firmwareMachine g).Reachable w) (hd : d ≠ .none) :
    (∀ es, Stalling g d w es → RestartsFirst g w es → tickCount es ≤ 25) ∧
    ∀ es w', Stalling g d w es → (firmwareMachine g).run w es = some w' →
      w'.controller.pins = Pins.driving d →
      ((∀ n, Stalling g d w (es ++ List.replicate n (.tick w.controller.mPreviousInpinState)) →
          tickCount es + n ≤ 25) ↔ RestartsFirst g w es) := by
  refine ⟨fun es hs hfirst => tickCount_le_of_restartsFirst h hd hs hfirst, ?_⟩
  intro es w' hs hrun hon
  constructor
  · intro hbound pre e post w₁ hes hpre hrestart
    -- otherwise the restart has given the motor 25 ticks on top of those before it
    by_contra hticks
    obtain ⟨hprev, -⟩ := idle_le_add_tickCount h hd hs hrun hon
    have hidle := idle_le (h.run hrun) hd hon
    have hafter : w'.controller.mIdleCounter.toNat ≤ tickCount post := by
      rw [hes] at hs hrun
      obtain ⟨w₂, hpre', hrest⟩ := Machine.run_append_eq_some.mp hrun
      rw [hpre] at hpre'
      cases hpre'
      exact idle_le_of_restart (h.run hpre) hd ((Machine.meets_append.mp hs).2 w₁ hpre) hrestart
        hrest hon
    have hmore : Stalling g d w (es ++ List.replicate (25 - w'.controller.mIdleCounter.toNat)
        (.tick w.controller.mPreviousInpinState)) := by
      refine Machine.meets_append.mpr ⟨hs, fun t ht => ?_⟩
      rw [hrun] at ht
      cases ht
      rw [← hprev]
      exact stalling_ticks (h.run hrun) hon (by omega)
    have hle := hbound _ hmore
    rw [hes, tickCount_append, tickCount_cons] at hle
    omega
  · intro hfirst n hmore
    have hle := tickCount_le_of_restartsFirst h hd hmore (hfirst.append_ticks n _)
    rwa [tickCount_append, tickCount_replicate] at hle

/-- A reset write to the bottom. -/
def bottomWrite : FirmwareEvent := .ble (.write (.ofBytes 7 [0x88, 0xDD]))

/-- A desk at tick `0` that is sent to the bottom and blocked: 25 ticks in a row keep to the bound;
if the command is repeated after the first tick, some number of ticks after it does not. -/
theorem stall_bounded_iff_bottom :
    ∃ w, (firmwareMachine .shipped).run bootAtZero [bottomWrite] = some w ∧
      Stalling .shipped .down w (List.replicate 25 (.tick 0)) ∧
      tickCount (List.replicate 25 (.tick 0)) ≤ 25 ∧
      ¬∀ n, Stalling .shipped .down w ([.tick 0, bottomWrite] ++
          List.replicate n (.tick w.controller.mPreviousInpinState)) →
        tickCount [.tick 0, bottomWrite] + n ≤ 25 := by
  have hrun : ∃ w w₁ w₂, (firmwareMachine .shipped).run bootAtZero [bottomWrite] = some w ∧
      (w.controller.pins = Pins.driving .down ∧ w.controller.mPreviousInpinState = 0 ∧
        w.controller.mIdleCounter = 0) ∧
      (firmwareMachine .shipped).run w [.tick 0] = some w₁ ∧
      (w₁.controller.pins = Pins.driving .down ∧ bottomWrite.Restarts .shipped w₁) ∧
      (firmwareMachine .shipped).run w [.tick 0, bottomWrite] = some w₂ ∧
      w₂.controller.pins = Pins.driving .down :=
    ⟨_, _, _, rfl, ⟨rfl, rfl, rfl⟩, rfl, ⟨rfl, _, _, _, rfl, rfl, rfl⟩, rfl, rfl⟩
  obtain ⟨w, w₁, w₂, hw, ⟨hon, hprev, hidle⟩, hw₁, ⟨hon₁, hrestart⟩, hw₂, hon₂⟩ := hrun
  have hreach : (firmwareMachine .shipped).Reachable w := ⟨_, _, ⟨_, _, _, _, rfl⟩, hw⟩
  have hs : Stalling .shipped .down w (List.replicate 25 (.tick 0)) := by
    rw [← hprev]
    exact stalling_ticks hreach hon (by rw [hidle]; decide)
  have hnone : RestartsFirst .shipped w [] := by
    intro pre e post w₁ hes
    simp at hes
  have hfirst : RestartsFirst .shipped w (List.replicate 25 (.tick 0)) := hnone.append_ticks 25 0
  have hiff := stall_bounded_iff (d := .down) hreach (by decide)
  refine ⟨w, hw, hs, hiff.1 _ hs hfirst, ?_⟩
  intro hbound
  have hs' : Stalling .shipped .down w [.tick 0, bottomWrite] := by
    refine ⟨⟨hon, hprev.symm⟩, fun w₁' hstep => ?_⟩
    rw [← Machine.run_singleton, hw₁] at hstep
    cases hstep
    exact ⟨⟨hon₁, trivial⟩, fun _ _ => trivial⟩
  have hzero := (hiff.2 _ w₂ hs' hw₂ hon₂).mp hbound [.tick 0] bottomWrite [] w₁ rfl hw₁ hrestart
  exact absurd hzero (by decide)

/-- The desk at tick `0`, sent to the bottom and blocked there, is on for 48 ticks if the command is
repeated after 24. -/
theorem not_forall_stall_bounded :
    ¬∀ (g : Geometry) (w : Firmware), (firmwareMachine g).Reachable w → ∀ d, d ≠ .none →
      ∀ es, Stalling g d w es → tickCount es ≤ 25 := by
  intro h
  have hrun : ∃ w w₁ w₂, (firmwareMachine .shipped).run bootAtZero [bottomWrite] = some w ∧
      (w.controller.pins = Pins.driving .down ∧ w.controller.mPreviousInpinState = 0 ∧
        w.controller.mIdleCounter = 0) ∧
      (firmwareMachine .shipped).run w (List.replicate 24 (.tick 0)) = some w₁ ∧
      w₁.controller.pins = Pins.driving .down ∧
      (firmwareMachine .shipped).step w₁ bottomWrite = some w₂ ∧
      (w₂.controller.pins = Pins.driving .down ∧ w₂.controller.mPreviousInpinState = 0 ∧
        w₂.controller.mIdleCounter = 0) :=
    ⟨_, _, _, rfl, ⟨rfl, rfl, rfl⟩, rfl, rfl, rfl, rfl, rfl, rfl⟩
  obtain ⟨w, w₁, w₂, hw, ⟨hon, hprev, hidle⟩, hw₁, hon₁, hw₂, hon₂, hprev₂, hidle₂⟩ := hrun
  have hreach : (firmwareMachine .shipped).Reachable w := ⟨_, _, ⟨_, _, _, _, rfl⟩, hw⟩
  have hticks : Stalling .shipped .down w (List.replicate 24 (.tick 0)) := by
    rw [← hprev]
    exact stalling_ticks hreach hon (by rw [hidle]; decide)
  have hticks₂ : Stalling .shipped .down w₂ (List.replicate 24 (.tick 0)) := by
    rw [← hprev₂]
    exact stalling_ticks ((hreach.run hw₁).step hw₂) hon₂ (by rw [hidle₂]; decide)
  have hall : Stalling .shipped .down w
      (List.replicate 24 (.tick 0) ++ bottomWrite :: List.replicate 24 (.tick 0)) := by
    refine Machine.meets_append.mpr ⟨hticks, fun t ht => ?_⟩
    rw [hw₁] at ht
    cases ht
    refine ⟨⟨hon₁, trivial⟩, fun t ht => ?_⟩
    rw [hw₂] at ht
    cases ht
    exact hticks₂
  have hle := h .shipped w hreach .down (by decide) _ hall
  exact absurd hle (by decide)

end Firmware

end Acromegaly
