import Acromegaly.Found.History
import Acromegaly.Publish.FinalUpdate
import Acromegaly.Publish.Pace
import Acromegaly.Wire.Protocol

/-!
# When nothing is lost

`controller_cb` drops a state that finds the mailbox full. It never does as long as the main loop keeps
up: five of its steps are enough to empty the mailbox (`Publisher.waits`), so if it takes as many after
boot and after each request and each tick, then every state of the desk is written to flash and
handed over to the client there is, each once and in order (`Firmware.nothing_lost`), and a power cut
after that loses nothing.
How the steps fall, and what connects and disconnects come between, does not matter.
-/

namespace Acromegaly

open Found

/-! ## Keeping up -/

/-- The main loop takes five steps before each event that the desk is served with, and at the end;
`n` of the first five have been taken. -/
def Paced (g : Geometry) (ctrlHandle : UInt16) : ℕ → List FirmwareEvent → Prop
  | n, [] => 5 ≤ n
  | n, e :: es =>
      match e.served g ctrlHandle with
      | some _ => 5 ≤ n ∧ Paced g ctrlHandle 0 es
      | none => Paced g ctrlHandle (n + mainSteps [e]) es

section paced

variable {g : Geometry} {ctrlHandle : UInt16} {n : ℕ} {e : FirmwareEvent} {es : List FirmwareEvent}

theorem paced_cons_of_none (h : e.served g ctrlHandle = none) :
    Paced g ctrlHandle n (e :: es) ↔ Paced g ctrlHandle (n + mainSteps [e]) es := by
  simp only [Paced, h]

theorem paced_cons_of_some {ev : CtrlEvent} (h : e.served g ctrlHandle = some ev) :
    Paced g ctrlHandle n (e :: es) ↔ 5 ≤ n ∧ Paced g ctrlHandle 0 es := by
  simp only [Paced, h]

instance Paced.decidable (g : Geometry) (ctrlHandle : UInt16) :
    (n : ℕ) → (es : List FirmwareEvent) → Decidable (Paced g ctrlHandle n es)
  | n, [] => inferInstanceAs (Decidable (5 ≤ n))
  | n, e :: es =>
      match h : e.served g ctrlHandle with
      | none =>
          have := Paced.decidable g ctrlHandle (n + mainSteps [e]) es
          decidable_of_iff _ (paced_cons_of_none h).symm
      | some _ =>
          have := Paced.decidable g ctrlHandle 0 es
          decidable_of_iff _ (paced_cons_of_some h).symm

end paced

namespace Controller

/-! ## What the controller announces -/

/-- A handler has called `m_cb` at least once, each time with the state it leaves behind. -/
def Announces (c c' : Controller) : Prop :=
  ∃ n, c'.cbCalls = c.cbCalls ++ List.replicate (n + 1) c'.mState

variable {c : Controller}

theorem Regular.tick_announces (h : c.Regular) (hrun : c.timerRunning = true) (r : UInt32) :
    c.Announces (c.timerTimeoutHandler r) := by
  rcases h.tick_cases hrun r with ⟨-, -, heq⟩ | ⟨-, -, heq⟩ | ⟨-, -, heq⟩ | ⟨-, -, heq⟩
  · rw [heq]
    exact ⟨1, rfl⟩
  · rw [heq]
    exact ⟨0, rfl⟩
  · rw [heq]
    exact ⟨0, rfl⟩
  · rw [heq]
    exact ⟨1, rfl⟩

/-- A request is always heard. -/
theorem Regular.request_announces (h : c.Regular) (g : Geometry) (r : Request) :
    c.Announces (c.command (r.command g)) := by
  have hsets : ∃ t ty, (r.command g).sets = some (t, ty) := by
    obtain ⟨op, operand⟩ := r
    cases op with
    | forceStop => exact ⟨_, _, rfl⟩
    | setTargetPos => exact ⟨_, _, rfl⟩
    | reset =>
        cases operand with
        | bottom => exact ⟨_, _, rfl⟩
        | top => exact ⟨_, _, rfl⟩
  obtain ⟨t, ty, hsets⟩ := hsets
  rw [h.command_of_sets hsets]
  exact ⟨0, rfl⟩

end Controller

/-! ## Nothing is lost -/

/-- The firmware's controller is the desk `k`, its application carries out `p`, which has accepted
the state of `k` last, and of the five steps that takes the main loop has taken `n`. -/
structure Firmware.KeepsUp (g : Geometry) (w : Firmware) (k : Desk) (p : Publisher ControllerState)
    (n : ℕ) : Prop where
  desk : w.controller.Represents k
  carries : w.app.CarriesOut g p
  reachable : (Publisher.machine ControllerState).Reachable p
  last : p.accepted.getLast? = some k.state
  due : p.due ≤ 5 - n

namespace Firmware

variable {g : Geometry} {w w' : Firmware} {k : Desk} {p : Publisher ControllerState} {n : ℕ}
  {ctrlHandle : UInt16}

/-- A write that is not served leaves the controller alone. -/
theorem unserved_step (hhandle : w.mCtrlService.valueHandle = ctrlHandle) {e : FirmwareEvent}
    (ht : ∀ we, e = .ble (.write we) → ¬we.Truncated ⟨bleConnHandleInvalid, ctrlHandle⟩)
    (hserved : e.served g ctrlHandle = none) (hstep : (firmwareMachine g).step w e = some w') :
    w'.controller = w.controller ∧ w'.app.callbacks = w.app.callbacks := by
  cases e with
  | mainStep => exact quiet_step rfl hstep
  | tick r => cases hserved
  | ble evt =>
      cases evt with
      | connected connHandle => exact quiet_step rfl hstep
      | disconnected => exact quiet_step rfl hstep
      | other => exact quiet_step rfl hstep
      | write we =>
          have hnone : we.request? w.mCtrlService = none := by
            have hmap : (we.request? ⟨bleConnHandleInvalid, ctrlHandle⟩).map _ = none := hserved
            rw [← Option.map_eq_none_iff.mp hmap]
            unfold WriteEvt.request?
            rw [hhandle]
          have htrunc : ¬we.Truncated w.mCtrlService := by
            have hcomplete := ht we rfl
            unfold WriteEvt.Truncated at hcomplete ⊢
            rwa [hhandle]
          have hsame : bleCtrlServiceOnWrite g w.mCtrlService we w.controller = w.controller :=
            WriteEvt.onWrite_of_request?_eq_none htrunc hnone w.controller
          cases hstep
          refine ⟨hsame, ?_⟩
          show (deliver (bleCtrlServiceOnWrite g w.mCtrlService we w.controller) w).app.callbacks = _
          rw [hsame, deliver_self]

/-- It leaves the mailbox the more time. -/
theorem KeepsUp.unserved (h : w.KeepsUp g k p n)
    (hhandle : w.mCtrlService.valueHandle = ctrlHandle) {e : FirmwareEvent}
    (ht : ∀ we, e = .ble (.write we) → ¬we.Truncated ⟨bleConnHandleInvalid, ctrlHandle⟩)
    (hserved : e.served g ctrlHandle = none) (hstep : (firmwareMachine g).step w e = some w') :
    ∃ p', w'.KeepsUp g k p' (n + mainSteps [e]) ∧ p'.accepted = p.accepted := by
  obtain ⟨hcontroller, hcallbacks⟩ := unserved_step hhandle ht hserved hstep
  obtain ⟨fs, p', hfs, hturns, hcarries⟩ :=
    run_turns h.reachable h.carries ((Machine.run_singleton w e).trans hstep)
  have hoffered : p'.offered = p.offered := by
    rw [← hcarries.offered, hcallbacks, h.carries.offered]
  obtain ⟨haccepted, hdue⟩ := Publisher.waits hfs hoffered
  refine ⟨p', ⟨?_, hcarries, h.reachable.run hfs, ?_, ?_⟩, haccepted⟩
  · rw [hcontroller]
    exact h.desk
  · rw [haccepted]
    exact h.last
  · have hbefore := h.due
    rw [hturns] at hdue
    omega

/-- What a handler announces to an empty mailbox is accepted. -/
theorem KeepsUp.deliver (h : w.KeepsUp g k p n) (hn : 5 ≤ n) {c : Controller} {k' : Desk}
    (hc : w.controller.Announces c) (hk : c.Represents k') :
    ∃ p', (w.deliver c).KeepsUp g k' p' 0 ∧ p'.accepted = p.accepted ++ [k'.state] := by
  obtain ⟨m, hcalls⟩ := hc
  rw [hk.state] at hcalls
  have hdrop : c.cbCalls.drop w.controller.cbCalls.length = List.replicate (m + 1) k'.state := by
    rw [hcalls, List.drop_left]
  have hempty : p.full = false := by
    have hdue := h.due
    exact Publisher.empty_of_due (by omega)
  have haccepted := Publisher.accepted_offers_of_empty hempty m k'.state
  refine ⟨p.offers (List.replicate (m + 1) k'.state), ⟨hk, ?_, ?_, ?_, Publisher.due_le _⟩,
    haccepted⟩
  · show ((c.cbCalls.drop w.controller.cbCalls.length).foldl _ w.app).CarriesOut g _
    rw [hdrop]
    exact h.carries.callbacks _
  · exact h.reachable.run (p.run_offers _)
  · rw [haccepted, List.getLast?_concat]

/-- An event that is served, with an empty mailbox. -/
theorem KeepsUp.served (h : w.KeepsUp g k p n) (hn : 5 ≤ n)
    (hhandle : w.mCtrlService.valueHandle = ctrlHandle) {e : FirmwareEvent} {ev : CtrlEvent}
    (hserved : e.served g ctrlHandle = some ev) (hstep : (firmwareMachine g).step w e = some w') :
    ∃ k' p', w'.KeepsUp g k' p' 0 ∧ deskMachine.step k ev = some k' ∧
      p'.accepted = p.accepted ++ [k'.state] := by
  cases e with
  | mainStep => cases hserved
  | tick r =>
      cases hserved
      obtain ⟨hrun, rfl⟩ := (step_tick_eq_some g).mp hstep
      obtain ⟨k', hk, hdesk⟩ := h.desk.tick hrun r
      obtain ⟨p', hkeeps, haccepted⟩ := h.deliver hn (h.desk.regular.tick_announces hrun r) hdesk
      exact ⟨k', p', hkeeps, hk, haccepted⟩
  | ble evt =>
      cases evt with
      | connected connHandle => cases hserved
      | disconnected => cases hserved
      | other => cases hserved
      | write we =>
          obtain ⟨r, hr, rfl⟩ := Option.map_eq_some_iff.mp hserved
          have hrequest : we.request? w.mCtrlService = some r := by
            rw [← hr]
            unfold WriteEvt.request?
            rw [hhandle]
          have hc : bleCtrlServiceOnWrite g w.mCtrlService we w.controller =
              w.controller.command (r.command g) := WriteEvt.onWrite_of_request? hrequest _
          obtain ⟨p', hkeeps, haccepted⟩ := h.deliver hn
            (h.desk.regular.request_announces g r) (h.desk.command (r.command g))
          have hsame : w' = w.deliver (w.controller.command (r.command g)) := by
            cases hstep
            rw [← hc]
            rfl
          rw [hsame]
          exact ⟨_, p', hkeeps, rfl, haccepted⟩

theorem KeepsUp.run {es : List FirmwareEvent} (h : w.KeepsUp g k p n)
    (hhandle : w.mCtrlService.valueHandle = ctrlHandle) (hcomplete : Complete ctrlHandle es)
    (hpaced : Paced g ctrlHandle n es) (hrun : (firmwareMachine g).run w es = some w') :
    ∃ k' p', w'.KeepsUp g k' p' 5 ∧
      deskMachine.run k (es.filterMap (FirmwareEvent.served g ctrlHandle)) = some k' ∧
      p'.accepted = p.accepted ++
        (deskMachine.trace k (es.filterMap (FirmwareEvent.served g ctrlHandle))).map Desk.state := by
  induction es generalizing w k p n with
  | nil =>
      cases hrun
      have hn : 5 ≤ n := hpaced
      refine ⟨k, p, { h with due := ?_ }, rfl, (List.append_nil _).symm⟩
      have hdue := h.due
      omega
  | cons e es ih =>
      obtain ⟨w₁, hstep, hrest⟩ := Machine.run_cons_eq_some.mp hrun
      have hhandle₁ : w₁.mCtrlService.valueHandle = ctrlHandle :=
        (valueHandle_step hstep).trans hhandle
      cases hserved : e.served g ctrlHandle with
      | none =>
          have ht : ∀ we, e = .ble (.write we) →
              ¬we.Truncated ⟨bleConnHandleInvalid, ctrlHandle⟩ := by
            rintro we rfl
            exact hcomplete we List.mem_cons_self
          obtain ⟨p₁, h₁, haccepted₁⟩ := h.unserved hhandle ht hserved hstep
          obtain ⟨k', p', h', hk', haccepted⟩ :=
            ih h₁ hhandle₁ hcomplete.tail ((paced_cons_of_none hserved).mp hpaced) hrest
          rw [List.filterMap_cons_none hserved]
          exact ⟨k', p', h', hk', by rw [haccepted, haccepted₁]⟩
      | some ev =>
          obtain ⟨hn, hpaced₁⟩ := (paced_cons_of_some hserved).mp hpaced
          obtain ⟨k₁, p₁, h₁, hk₁, haccepted₁⟩ := h.served hn hhandle hserved hstep
          obtain ⟨k', p', h', hk', haccepted⟩ := ih h₁ hhandle₁ hcomplete.tail hpaced₁ hrest
          rw [List.filterMap_cons_some hserved, Machine.trace_cons_of_some hk₁]
          refine ⟨k', p', h', Machine.run_cons_eq_some.mpr ⟨k₁, hk₁, hk'⟩, ?_⟩
          rw [haccepted, haccepted₁, List.append_assoc]
          rfl

theorem boot_keepsUp (chip : M45peChip) (inPinState : UInt32) (ctrlHandle statusHandle : UInt16) :
    (boot chip inPinState ctrlHandle statusHandle).KeepsUp g (.start chip.position inPinState)
      (.start (Desk.start chip.position inPinState).state) 0 := by
  have hdesk : (boot chip inPinState ctrlHandle statusHandle).controller.Represents
      (.start chip.position inPinState) := by
    rw [boot_controller]
    exact Controller.represents_start chip.position inPinState
  obtain ⟨hdone, -, -⟩ := systemInit_eq (d := (M45pe.powerUp chip).m45Init) rfl inPinState
  refine ⟨hdesk, ?_, .init ⟨_, rfl⟩, rfl, Publisher.due_le _⟩
  rw [← hdesk.state]
  exact App.carriesOut_start hdone statusHandle _

/-- **When nothing is lost.** From every flash content, along every run with no write too short for its
opcode in which the main loop takes at least five steps before each request and each tick and at the
end: the positions written to flash are those of all states of the desk, one after the other, from
the stored position on through the requests and ticks of the run, and there has been one status update
for each of these states, which has handed it over to the peer of that moment, exactly if there was
one; and what the chip then holds is the position of the desk, so that a power cut loses nothing. -/
theorem nothing_lost (chip : M45peChip) (inPinState : UInt32) (ctrlHandle statusHandle : UInt16)
    {es : List FirmwareEvent} (hcomplete : Complete ctrlHandle es)
    (hpaced : Paced g ctrlHandle 0 es)
    (hrun : (firmwareMachine g).run (boot chip inPinState ctrlHandle statusHandle) es = some w) :
    let served := es.filterMap (FirmwareEvent.served g ctrlHandle)
    let start := Desk.start chip.position inPinState
    let states := (start :: deskMachine.trace start served).map Desk.state
    w.app.flashLog = states.map (·.position) ∧
      List.Forall₂ (Notifies g statusHandle) w.app.notifyLog states ∧
      ∃ k, deskMachine.run start served = some k ∧ w.controller.observed = k.observed ∧
        w.app.m45pe.chip.position = k.position := by
  intro served start states
  have hhandle : (boot chip inPinState ctrlHandle statusHandle).mCtrlService.valueHandle =
      ctrlHandle := rfl
  obtain ⟨k, p, h, hk, haccepted⟩ :=
    (boot_keepsUp (g := g) chip inPinState ctrlHandle statusHandle).run hhandle hcomplete hpaced hrun
  have haccepted : p.accepted = states := haccepted
  have hcons := Publisher.machine_consistent h.reachable
  have hempty : p.full = false := Publisher.empty_of_due (Nat.le_zero.mp h.due)
  have hstores : p.stores = states := (hcons.stored (.inl hempty)).2.trans haccepted
  have hshows : p.shows = states := (hcons.shown (.inl hempty)).2.trans haccepted
  refine ⟨?_, ?_, k, hk, h.desk.observed_eq, ?_⟩
  · rw [h.carries.stores, hstores]
  · have hstatus : w.app.mStatusService.valueHandle = statusHandle :=
      (statusHandle_run hrun).trans (App.undisturbed_callbacks _ _).valueHandle
    rw [← hshows, ← hstatus]
    exact h.carries.shows
  · have hslot : p.slot = k.state := by
      have hlast := Publisher.machine_getLast? h.reachable
      rw [h.last] at hlast
      exact (Option.some.inj hlast).symm
    rw [h.carries.stored _ (hcons.stored_of_empty hempty), hslot]
    rfl

/-- A client connects, sends the desk to 840 mm and is gone; one edge is counted. -/
def unhurried : List FirmwareEvent :=
  .ble (.connected 5) :: (List.replicate 5 .mainStep ++
    .ble (.write (.ofBytes 7 [0x60, 0x48, 0x03])) :: (List.replicate 3 .mainStep ++
      .ble .disconnected :: (List.replicate 2 .mainStep ++ .tick 1 :: List.replicate 5 .mainStep)))

theorem unhurried_complete : Complete 7 unhurried := by
  intro e he
  simp [unhurried] at he
  rw [he]
  rintro ⟨-, -, htrunc⟩
  revert htrunc
  decide

/-- The client is told of the first two states; the third is told to nobody. -/
theorem nothing_lost_unhurried :
    ∃ w, (firmwareMachine .shipped).run bootAtZero unhurried = some w ∧
      w.app.flashLog = [0, 0, 1] ∧ w.app.m45pe.chip.position = 1 ∧
      w.app.notifyLog.map (·.connHandle) = [5, 5, bleConnHandleInvalid] ∧
      List.Forall₂ (Notifies .shipped 14) w.app.notifyLog
        [⟨0, -1, .none, .none⟩, ⟨0, 11, .up, .exact⟩, ⟨1, 11, .up, .exact⟩] := by
  have hrun : ∃ w, (firmwareMachine .shipped).run bootAtZero unhurried = some w ∧
      w.app.notifyLog.map (·.connHandle) = [5, 5, bleConnHandleInvalid] :=
    ⟨_, rfl, rfl⟩
  have hserved : unhurried.filterMap (FirmwareEvent.served .shipped 7) =
      [.command (.target 11), .tick 1] := by decide
  obtain ⟨w, hw, hpeers⟩ := hrun
  have h := nothing_lost (g := .shipped) ⟨fun _ => 0, false, fun _ => 0⟩ 0 7 14 unhurried_complete
    (by decide) hw
  dsimp only at h
  rw [hserved] at h
  obtain ⟨hlog, hnotifies, k, hk, -, hposition⟩ := h
  refine ⟨w, hw, hlog.trans rfl, hposition.trans ?_, hpeers, hnotifies⟩
  cases hk
  rfl

end Firmware

end Acromegaly
