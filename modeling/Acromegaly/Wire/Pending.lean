import Acromegaly.Motion.Parts
import Acromegaly.Wire.Direction

/-!
# Is a move pending?

`movement`, `target` and `target_type` each say whether a move is pending. Ticks keep them in
agreement, and so does a stop. A new target does if it asks for a move: a target equal to the
current position, or to the sentinel `NIL_POSITION`, is stored with its type although nothing
moves (`Command.agrees_iff`). With the shipped geometry the sentinel is the tick target of 833 mm.
-/

namespace Acromegaly

open Found

namespace Controller

/-- The three fields agree on whether a move is pending. -/
def Agrees (c : Controller) : Prop :=
  (c.mState.movement ≠ .none ↔ c.mState.target ≠ nilPosition) ∧
    (c.mState.target ≠ nilPosition ↔ c.mState.targetType ≠ .none)

theorem boot_agrees (p : Int16) (r : UInt32) : (boot p r).Agrees := by
  simp [Agrees]

/-- A tick keeps the fields or clears all three. -/
theorem Agrees.tick {c : Controller} (h : c.Agrees) (hreg : c.Regular)
    (hrun : c.timerRunning = true) (r : UInt32) : (c.timerTimeoutHandler r).Agrees := by
  rcases hreg.tick_cases hrun r with ⟨-, -, heq⟩ | ⟨-, -, heq⟩ | ⟨-, -, heq⟩ | ⟨-, -, heq⟩
  · rw [heq]; simp [Agrees, restState]
  · rw [heq]; exact h
  · rw [heq]; exact h
  · rw [heq]; simp [Agrees, restState]

/-- A target with a type is in agreement exactly if it is a target and lies elsewhere. -/
theorem aimed_agrees_iff (c : Controller) (t : Int16) {ty : TargetType} (hty : ty ≠ .none) :
    (c.aimed t ty).Agrees ↔ t ≠ nilPosition ∧ t ≠ c.mState.position := by
  unfold Agrees
  simp only [aimed_mState_movement, aimed_mState_target, aimed_mState_targetType]
  constructor
  · rintro ⟨h₁, h₂⟩
    have ht : t ≠ nilPosition := h₂.mpr hty
    have haim := h₁.mpr ht
    exact ⟨ht, fun heq => haim (aim_eq_none.mpr (.inr heq))⟩
  · rintro ⟨ht, hp⟩
    have haim : aim t c.mState.position ≠ .none := fun h => (aim_eq_none.mp h).elim ht hp
    exact ⟨iff_of_true haim ht, iff_of_true ht hty⟩

/-- A stop clears all three fields. -/
theorem aimed_nil_agrees (c : Controller) : (c.aimed nilPosition .none).Agrees := by
  simp [Agrees]

end Controller

/-- The command asks for a move: its target is not the sentinel and not the current position. -/
def Command.AsksForMove (c : Controller) : Command → Prop
  | .stop => True
  | .target t => t ≠ nilPosition ∧ t ≠ c.mState.position
  | .extremum e =>
      (e = Controller.ctrlExtremumPosBottom → c.mState.position ≠ Controller.bottomTarget) ∧
        (e = Controller.ctrlExtremumPosTop → c.mState.position ≠ Controller.topTarget)

/-- From a state in agreement, a command leads to one exactly if it is a stop or asks for a
move. -/
theorem Command.agrees_iff {c : Controller} (h : c.Agrees) (hreg : c.Regular) (cmd : Command) :
    (c.command cmd).Agrees ↔ cmd.AsksForMove c := by
  cases cmd with
  | stop =>
      have heq : c.command .stop = c.aimed nilPosition .none :=
        Controller.setTargetPos_eq_aimed hreg.cb nilPosition .none
      rw [heq]
      exact iff_of_true c.aimed_nil_agrees trivial
  | target t =>
      have heq : c.command (.target t) = c.aimed t .exact :=
        Controller.setTargetPos_eq_aimed hreg.cb t .exact
      rw [heq, c.aimed_agrees_iff t (by decide)]
      rfl
  | extremum e =>
      simp only [Controller.command, Controller.controllerExtremumPositionSet, AsksForMove]
      split_ifs with h₁ h₂
      · have htop : e ≠ Controller.ctrlExtremumPosTop := by rw [h₁]; decide
        have hnil : Controller.bottomTarget ≠ nilPosition := by decide
        rw [Controller.setTargetPos_eq_aimed hreg.cb, c.aimed_agrees_iff _ (by decide)]
        constructor
        · exact fun h => ⟨fun _ => h.2.symm, fun ht => absurd ht htop⟩
        · exact fun h => ⟨hnil, (h.1 h₁).symm⟩
      · have hnil : Controller.topTarget ≠ nilPosition := by decide
        rw [Controller.setTargetPos_eq_aimed hreg.cb, c.aimed_agrees_iff _ (by decide)]
        constructor
        · exact fun h => ⟨fun hb => absurd hb h₁, fun _ => h.2.symm⟩
        · exact fun h => ⟨hnil, (h.2 h₂).symm⟩
      · exact iff_of_true h ⟨fun h => absurd h h₁, fun h => absurd h h₂⟩

/-! ## Writes -/

/-- With the shipped geometry, 833 mm is the one height whose tick target is the sentinel. -/
theorem targetPosOfMm_shipped_eq_nil_iff (mm : Int16) :
    targetPosOfMm .shipped mm = nilPosition ↔ mm.toInt = 833 := by
  have hlow := mm.le_toInt
  have hhigh := mm.toInt_lt
  have hnil : nilPosition.toInt = -1 := rfl
  rw [← Int16.toInt_inj, toInt_targetPosOfMm_shipped, hnil]
  by_cases h : 0 ≤ 1000 * mm.toInt - 833738
  · rw [Int.tdiv_eq_ediv_of_nonneg h, Int.bmod_def, Int.emod_eq_of_lt (by omega) (by omega)]
    split_ifs <;> omega
  · have hneg : 1000 * mm.toInt - 833738 = -(833738 - 1000 * mm.toInt) := by omega
    have hlt : (833738 - 1000 * mm.toInt) / 525 < 65536 := by omega
    rw [hneg, Int.neg_tdiv, Int.tdiv_eq_ediv_of_nonneg (by omega), Int.bmod_def]
    by_cases hzero : (833738 - 1000 * mm.toInt) / 525 = 0
    · rw [hzero]
      split_ifs <;> omega
    · have hmod : -((833738 - 1000 * mm.toInt) / 525) % ((2 ^ 16 : ℕ) : ℤ) =
          65536 - (833738 - 1000 * mm.toInt) / 525 := by
        rw [← Int.add_emod_right, Int.emod_eq_of_lt] <;> omega
      rw [hmod]
      split_ifs <;> omega

/-- A write asks for a move, with the shipped geometry: a handled set-target write is neither of
833 mm nor of a height whose tick target is the current position, and a handled reset write is not
sent to the sentinel target the counter already stands at. Every other write meets this. -/
def WriteEvt.AsksForMove (svc : CtrlService) (c : Controller) (e : WriteEvt) : Prop :=
  e.handle = svc.valueHandle → e.len > 0 →
    (e.data 0 = ctrlCommandSetTargetPos →
      e.heightMm.toInt ≠ 833 ∧ targetPosOfMm .shipped e.heightMm ≠ c.mState.position) ∧
    (e.data 0 = ctrlCommandReset →
      (e.data 1 = Controller.ctrlExtremumPosBottom →
        c.mState.position ≠ Controller.bottomTarget) ∧
      (e.data 1 = Controller.ctrlExtremumPosTop → c.mState.position ≠ Controller.topTarget))

theorem WriteEvt.asksForMove_iff (svc : CtrlService) (c : Controller) (e : WriteEvt) :
    e.AsksForMove svc c ↔ ∀ cmd, e.command? .shipped svc = some cmd → cmd.AsksForMove c := by
  have hreset : ctrlCommandReset ≠ ctrlCommandSetTargetPos := by decide
  have hstop₁ : ctrlCommandForceStop ≠ ctrlCommandSetTargetPos := by decide
  have hstop₂ : ctrlCommandForceStop ≠ ctrlCommandReset := by decide
  have htarget := targetPosOfMm_shipped_eq_nil_iff e.heightMm
  unfold WriteEvt.AsksForMove WriteEvt.command?
  split_ifs with hh h₁ h₂ h₃
  · have h₂ : e.data 0 ≠ ctrlCommandSetTargetPos := by rwa [h₁]
    have h₃ : e.data 0 ≠ ctrlCommandReset := by rwa [h₁]
    refine iff_of_true (fun _ _ => ⟨fun h => absurd h h₂, fun h => absurd h h₃⟩) ?_
    rintro _ ⟨⟩
    trivial
  · have h₃ : e.data 0 ≠ ctrlCommandReset := by rw [h₂]; exact hreset.symm
    constructor
    · rintro h _ ⟨⟩
      obtain ⟨hmm, hpos⟩ := (h hh.1 hh.2).1 h₂
      exact ⟨mt htarget.mp hmm, hpos⟩
    · intro h _ _
      obtain ⟨hnil, hpos⟩ := h _ rfl
      exact ⟨fun _ => ⟨mt htarget.mpr hnil, hpos⟩, fun h => absurd h h₃⟩
  · constructor
    · rintro h _ ⟨⟩
      exact (h hh.1 hh.2).2 h₃
    · intro h _ _
      exact ⟨fun h => absurd h h₂, fun _ => h _ rfl⟩
  · refine iff_of_true (fun _ _ => ⟨fun h => absurd h h₂, fun h => absurd h h₃⟩) ?_
    rintro _ ⟨⟩
  · refine iff_of_true (fun h₁ h₂ => absurd ⟨h₁, h₂⟩ hh) ?_
    rintro _ ⟨⟩

/-! ## Runs -/

/-- The event is no write, or a write that asks for a move. -/
def FirmwareEvent.AsksForMove (w : Firmware) : FirmwareEvent → Prop
  | .ble (.write e) => e.AsksForMove w.mCtrlService w.controller
  | _ => True

namespace Firmware

/-- From a state in agreement, a write leads to one exactly if it asks for a move. -/
theorem write_agrees_iff {w w' : Firmware} (hreg : w.controller.Regular)
    (h : w.controller.Agrees) {e : WriteEvt}
    (hstep : (firmwareMachine .shipped).step w (.ble (.write e)) = some w') :
    w'.controller.Agrees ↔ e.AsksForMove w.mCtrlService w.controller := by
  cases hstep
  show (bleCtrlServiceOnWrite .shipped w.mCtrlService e w.controller).Agrees ↔ _
  rw [bleCtrlServiceOnWrite_eq, WriteEvt.asksForMove_iff]
  cases hc : e.command? .shipped w.mCtrlService with
  | none => exact iff_of_true h (by rintro _ ⟨⟩)
  | some cmd =>
      rw [Command.agrees_iff h hreg]
      constructor
      · rintro hask _ ⟨⟩
        exact hask
      · exact fun hask => hask cmd rfl

theorem agrees_step {w w' : Firmware} (hreg : w.controller.Regular) (h : w.controller.Agrees)
    {e : FirmwareEvent} (hask : e.AsksForMove w)
    (hstep : (firmwareMachine .shipped).step w e = some w') : w'.controller.Agrees := by
  rcases step_controller .shipped hstep with ⟨-, -, hc⟩ | ⟨r, -, hrun, hc⟩ | ⟨we, rfl, -⟩
  · rw [hc]
    exact h
  · rw [hc]
    exact h.tick hreg hrun r
  · exact (write_agrees_iff hreg h hstep).mpr hask

/-- **Whether a move is pending.** From boot at any position, in every run whose writes ask for
moves, `movement`, `target` and `target_type` agree in the state reached on whether one is pending;
and the next write leaves them in agreement exactly if it asks for a move too. -/
theorem pending_agrees {w₀ w : Firmware} {es : List FirmwareEvent}
    (hinit : (firmwareMachine .shipped).init w₀)
    (hask : (firmwareMachine .shipped).Meets (fun w e => e.AsksForMove w) w₀ es)
    (hrun : (firmwareMachine .shipped).run w₀ es = some w) :
    w.controller.Agrees ∧
      ∀ e w', (firmwareMachine .shipped).step w (.ble (.write e)) = some w' →
        (w'.controller.Agrees ↔ e.AsksForMove w.mCtrlService w.controller) := by
  have hstart : w₀.controller.Agrees := by
    obtain ⟨chip, inPinState, ctrlHandle, statusHandle, rfl⟩ := hinit
    rw [boot_controller]
    exact Controller.boot_agrees _ _
  have hboth := Machine.run_preserves_of_meets
    (I := fun w => (firmwareMachine .shipped).Reachable w ∧ w.controller.Agrees) ?_
    ⟨.init hinit, hstart⟩ hask hrun
  · refine ⟨hboth.2, fun e w' hstep => ?_⟩
    exact write_agrees_iff (reachable_regular hboth.1) hboth.2 hstep
  · rintro w e w' ⟨hw, hag⟩ hasks hstep
    exact ⟨hw.step hstep, agrees_step (reachable_regular hw) hag hasks hstep⟩

/-- A desk at tick `0` that is sent to 840 mm and counts an edge. -/
theorem pending_agrees_moving :
    ∃ w, (firmwareMachine .shipped).run bootAtZero
        [.ble (.write (.ofBytes 7 [0x60, 0x48, 0x03])), .tick 1] = some w ∧
      w.controller.mState.movement = .up ∧ w.controller.Agrees :=
  ⟨_, rfl, rfl, (pending_agrees
    (show (firmwareMachine .shipped).init bootAtZero from ⟨_, _, _, _, rfl⟩)
    (show Machine.Meets _ _ _ [.ble (.write (.ofBytes 7 [0x60, 0x48, 0x03])), .tick 1] from
      ⟨fun _ _ => ⟨fun _ => by decide, fun h => absurd h (by decide)⟩,
        fun _ _ => ⟨trivial, fun _ _ => trivial⟩⟩) rfl).1⟩

/-- A desk at tick `0` that is sent to 834 mm, the height of tick `0`: nothing moves, and the
target stays set. -/
theorem not_forall_agrees :
    ¬∀ w, (firmwareMachine .shipped).Reachable w → w.controller.Agrees := by
  intro h
  have hreach : (firmwareMachine .shipped).Reachable
      (bleEvtDispatch .shipped (.write (.ofBytes 7 [0x60, 0x42, 0x03])) bootAtZero) :=
    ⟨bootAtZero, [.ble (.write (.ofBytes 7 [0x60, 0x42, 0x03]))], ⟨_, _, _, _, rfl⟩, rfl⟩
  have hmove := (h _ hreach).1.mpr (by decide)
  exact absurd hmove (by decide)

end Firmware

end Acromegaly
