import Acromegaly.Motion.Calibration
import Acromegaly.Motion.Desk
import Acromegaly.Motion.Projection
import Acromegaly.Motion.Rest

/-!
# The desk comes to rest

Left alone the controller does not tick for ever, powered or coasting: every tick uses up patience,
and only an edge gives some back. So the ticks of a run without commands are bounded by its edges,
whatever else the firmware does in between, and when they end the desk is at rest
(`comes_to_rest`). The bound is that of the desk (`Desk.ticksLeft`), carried over by the
bisimulation.
-/

namespace Acromegaly

open Found

/-! ## The bound for the desk -/

namespace Desk

/-- The ticks left if there is no further edge. -/
def ticksLeft (k : Desk) : ℕ :=
  match k.activity with
  | .resting => 0
  | .running _ _ n => n + 1

theorem ticksLeft_le (k : Desk) : k.ticksLeft ≤ 25 := by
  have h := k.sound
  unfold ticksLeft
  cases hact : k.activity with
  | resting => exact Nat.zero_le 25
  | running powered heading n =>
      rw [hact] at h
      exact Nat.succ_le_succ h.1

theorem ticksLeft_pos {k : Desk} (h : k.activity ≠ .resting) : 0 < k.ticksLeft := by
  unfold ticksLeft
  cases hact : k.activity with
  | resting => exact absurd hact h
  | running powered heading n => exact Nat.succ_pos n

theorem edge_level (k : Desk) (r : UInt32) (powered : Bool) (heading : Heading)
    (h : powered = true → Controller.aim k.target k.position = heading.direction) :
    (k.edge r powered heading h).level = r ∧ (k.edge r powered heading h).ticksLeft = 24 := by
  unfold edge
  dsimp only
  split_ifs
  · exact ⟨rfl, rfl⟩
  · exact ⟨rfl, rfl⟩

theorem wait_level (k : Desk) (powered : Bool) (heading : Heading) (n : ℕ)
    (h : (Activity.running powered heading n).Sound k.target k.position) :
    (k.wait powered heading n h).level = k.level ∧ (k.wait powered heading n h).ticksLeft = n := by
  cases n with
  | zero => exact ⟨rfl, rfl⟩
  | succ n => exact ⟨rfl, rfl⟩

/-- A tick uses up one of the ticks left; an edge gives back 24 at most. -/
theorem tick_ticksLeft {k k' : Desk} {r : UInt32} (h : k.tick r = some k') :
    k'.level = r ∧ 1 + k'.ticksLeft ≤ k.ticksLeft + 24 * (if r = k.level then 0 else 1) := by
  cases hact : k.activity with
  | resting =>
      rw [tick_resting hact] at h
      cases h
  | running powered heading n =>
      have hsound := k.sound
      rw [hact] at hsound
      have hleft : k.ticksLeft = n + 1 := by
        unfold ticksLeft
        rw [hact]
      rw [tick_running hact hsound] at h
      split_ifs at h ⊢ with hr
      · cases h
        obtain ⟨hlevel, hwait⟩ := k.wait_level powered heading n hsound
        refine ⟨hlevel.trans hr.symm, ?_⟩
        rw [hwait, hleft]
        omega
      · cases h
        obtain ⟨hlevel, hedge⟩ := k.edge_level r powered heading hsound.2
        refine ⟨hlevel, ?_⟩
        rw [hedge, hleft]
        omega

/-- So many ticks there are in a run. -/
theorem length_le_of_run {k k' : Desk} {rs : List UInt32}
    (h : deskMachine.run k (rs.map .tick) = some k') :
    rs.length + k'.ticksLeft ≤ k.ticksLeft + 24 * Controller.edges k.level rs := by
  induction rs generalizing k with
  | nil =>
      cases h
      simp [Controller.edges]
  | cons r rs ih =>
      obtain ⟨k₁, hstep, hrest⟩ := Machine.run_cons_eq_some.mp h
      obtain ⟨hlevel, hleft⟩ := tick_ticksLeft hstep
      have hlater := ih hrest
      rw [hlevel] at hlater
      rw [List.length_cons, Controller.edges]
      omega

end Desk

/-! ## Runs without commands -/

/-- The readings of the ticks among some events. -/
def readings (es : List FirmwareEvent) : List UInt32 :=
  es.filterMap fun
    | .tick inPinState => some inPinState
    | _ => none

/-- No event is a command to the controller. -/
def CommandFree (g : Geometry) (valueHandle : UInt16) (es : List FirmwareEvent) : Prop :=
  ∀ e ∈ es, ∀ cmd, e.ctrlEvent g valueHandle ≠ some (.command cmd)

theorem filterMap_of_commandFree {g : Geometry} {valueHandle : UInt16} {es : List FirmwareEvent}
    (h : CommandFree g valueHandle es) :
    es.filterMap (FirmwareEvent.ctrlEvent g valueHandle) = (readings es).map .tick := by
  unfold readings
  rw [List.map_filterMap]
  apply List.filterMap_congr
  intro e he
  cases e with
  | mainStep => rfl
  | tick r => rfl
  | ble evt =>
      have hnot := h _ he
      cases evt with
      | connected connHandle => rfl
      | disconnected => rfl
      | other => rfl
      | write we =>
          simp only [FirmwareEvent.ctrlEvent] at hnot ⊢
          cases hcmd : we.command? g ⟨bleConnHandleInvalid, valueHandle⟩ with
          | none => rfl
          | some cmd => exact absurd (by rw [hcmd]; rfl) (hnot cmd)

namespace Controller

/-- The tick on which the timer stops leaves the controller at rest. -/
theorem isAtRest_of_stopped {c c' : Controller} (h : c.Regular) {rs : List UInt32}
    (hrun : controllerMachine.run c (rs.map .tick) = some c') (hon : c.timerRunning = true)
    (hoff : c'.timerRunning = false) : c'.IsAtRest := by
  induction rs using List.reverseRecOn generalizing c' with
  | nil =>
      cases hrun
      rw [hon] at hoff
      cases hoff
  | append_singleton rs r ih =>
      rw [List.map_append] at hrun
      obtain ⟨c₁, hrun₁, hstep⟩ := Machine.run_concat_eq_some.mp hrun
      obtain ⟨hrunning, rfl⟩ := step_tick_eq_some.mp hstep
      have hreg : c₁.Regular := (h.run_ticks (I := fun _ => True) (fun _ _ _ _ _ => trivial)
        trivial hrun₁).1
      rcases hreg.tick_cases hrunning r with ⟨-, -, heq⟩ | ⟨-, -, heq⟩ | ⟨-, -, heq⟩ | ⟨-, -, heq⟩
      · rw [heq, arrived_timerRunning, hrunning] at hoff
        cases hoff
      · rw [heq, counted_timerRunning, hrunning] at hoff
        cases hoff
      · rw [heq, unmoved_timerRunning, hrunning] at hoff
        cases hoff
      · rw [heq]
        exact isAtRest_rested c₁

end Controller

namespace Firmware

variable {g : Geometry}

/-- **The desk comes to rest.** From any reachable state, in a run without commands, whatever the
readings and whatever steps of the main loop, connects, disconnects and other writes fall between
the ticks: 24 edge-free ticks for each edge, another 24 and the idle timeout are all the ticks there
can be; the timer has stopped by then; and it has stopped with the desk at rest. -/
theorem comes_to_rest {w w' : Firmware} (h : (firmwareMachine g).Reachable w)
    {es : List FirmwareEvent} (hfree : CommandFree g w.mCtrlService.valueHandle es)
    (hrun : (firmwareMachine g).run w es = some w') :
    let n := Controller.edges w.controller.mPreviousInpinState (readings es)
    (readings es).length ≤ 24 * n + 25 ∧
      (w'.controller.timerRunning = true → (readings es).length ≤ 24 * n + 24) ∧
      (w.controller.timerRunning = true → w'.controller.timerRunning = false →
        w'.controller.IsAtRest) := by
  intro n
  have hcontroller : controllerMachine.run w.controller ((readings es).map .tick) =
      some w'.controller := by
    rw [← filterMap_of_commandFree hfree]
    exact ((controllerShare g _).map_run rfl es).symm.trans (congrArg (Option.map controller) hrun)
  obtain ⟨c, hc, hrel⟩ := (controllerPart g).reachable h
  have hrel : w.controller = c := hrel
  rw [← hrel] at hc
  obtain ⟨k, hk⟩ := Controller.exists_represents hc
  obtain ⟨k', hdesk, hk'⟩ := Controller.represented.run_eq_some hk hcontroller
  have hlength := Desk.length_le_of_run hdesk
  rw [← hk.level] at hlength
  have hleft := k.ticksLeft_le
  refine ⟨by omega, ?_, ?_⟩
  · intro hon
    have hpos := Desk.ticksLeft_pos (hk'.timerRunning_iff.mp hon)
    omega
  · intro hon hoff
    exact Controller.isAtRest_of_stopped (reachable_regular h) hcontroller hon hoff

/-- A desk at tick `0` that is sent to the bottom and blocked: it is at rest after 25 ticks, with
steps of the main loop between them. -/
theorem comes_to_rest_blocked :
    ∃ w w', (firmwareMachine .shipped).run bootAtZero [.ble (.write (.ofBytes 7 [0x88, 0xDD]))] =
        some w ∧
      (firmwareMachine .shipped).run w
        (List.replicate 12 (.tick 0) ++ .mainStep :: .mainStep :: List.replicate 13 (.tick 0)) =
          some w' ∧ w'.controller.IsAtRest := by
  have hruns : ∃ w w',
      (firmwareMachine .shipped).run bootAtZero [.ble (.write (.ofBytes 7 [0x88, 0xDD]))] = some w ∧
      (firmwareMachine .shipped).run w
        (List.replicate 12 (.tick 0) ++ .mainStep :: .mainStep :: List.replicate 13 (.tick 0)) =
          some w' ∧ w.controller.timerRunning = true ∧ w'.controller.timerRunning = false :=
    ⟨_, _, rfl, rfl, rfl, rfl⟩
  obtain ⟨w, w', hw, hw', hon, hoff⟩ := hruns
  have hfree : CommandFree .shipped w.mCtrlService.valueHandle
      (List.replicate 12 (.tick 0) ++ .mainStep :: .mainStep :: List.replicate 13 (.tick 0)) := by
    intro e he cmd
    simp only [List.mem_append, List.mem_cons, List.mem_replicate] at he
    rcases he with ⟨-, rfl⟩ | rfl | rfl | ⟨-, rfl⟩ <;> simp [FirmwareEvent.ctrlEvent]
  exact ⟨w, w', hw, hw',
    (comes_to_rest ⟨_, _, ⟨_, _, _, _, rfl⟩, hw⟩ hfree hw').2.2 hon hoff⟩

end Firmware

end Acromegaly
