import Acromegaly.Found.History
import Acromegaly.Publish.FinalUpdate
import Acromegaly.Publish.Pace
import Acromegaly.Wire.Protocol

/-!
# What a client is told

A client sends requests, and what it asks for the desk does (`Firmware.serves`). The reports it gets in
return come out of the mailbox, which drops most of what the controller says, and on connecting it is
told once more what the mailbox holds. What remains true is this (`Firmware.tells_history`): the
positions written and the reports sent are those of states the desk was in, and they come in the order
in which it was in them.
-/

namespace Acromegaly

open Found

variable {g : Geometry}

/-! ## What was sent -/

/-- The notifications in `sent` are of states that were `told`, in this order. -/
def Heard (g : Geometry) (told : List ControllerState) (sent : List HvxParams) : Prop :=
  ∃ seen, Follows told seen ∧ List.Forall₂ (fun hvx st => hvx.data = encodeState g st) sent seen

section heard

variable {told all : List ControllerState} {sent : List HvxParams}

theorem Heard.nil (g : Geometry) (told : List ControllerState) : Heard g told [] :=
  ⟨[], .nil told, .nil⟩

theorem Heard.sublist (h : Heard g told sent) (hsub : told.Sublist all) : Heard g all sent := by
  obtain ⟨seen, hfollows, hsent⟩ := h
  exact ⟨seen, hfollows.sublist hsub, hsent⟩

/-- A status update is of the state that was told last. -/
theorem Heard.statusHvx (h : Heard g told sent) {a : App}
    (hlast : told.getLast? = some a.ctrlState) :
    Heard g told (sent ++ (a.statusHvx g).toList) := by
  by_cases hconn : a.mStatusService.connHandle = bleConnHandleInvalid
  · rw [App.statusHvx_of_not_connected hconn, Option.toList_none, List.append_nil]
    exact h
  · obtain ⟨seen, hfollows, hsent⟩ := h
    refine ⟨seen ++ [a.ctrlState], hfollows.again hlast, ?_⟩
    rw [App.statusHvx_of_connected hconn, Option.toList_some]
    exact List.rel_append hsent (.cons rfl .nil)

end heard

/-! ## The application tells what it has accepted -/

/-- The application carries out the publisher `p`, and what it has sent on the current connection is
what `p` has accepted. -/
structure App.Tells (g : Geometry) (a : App) (p : Publisher ControllerState) : Prop where
  carries : a.CarriesOut g p
  reachable : (Publisher.machine ControllerState).Reachable p
  heard : Heard g p.accepted a.sent

namespace App

variable {a : App} {p : Publisher ControllerState}

theorem Tells.last (h : a.Tells g p) : p.accepted.getLast? = some a.ctrlState := by
  rw [Publisher.machine_getLast? h.reachable, h.carries.slot]

/-- What it has sent parses as reports of states accepted. -/
theorem Tells.parses (h : a.Tells g p) :
    ∃ seen, Follows p.accepted seen ∧ List.Forall₂
      (fun hvx st => Report.codec.parse hvx.data = some (st.report g, [])) a.sent seen := by
  obtain ⟨seen, hfollows, hsent⟩ := h.heard
  refine ⟨seen, hfollows, hsent.imp ?_⟩
  intro hvx st hdata
  rw [hdata]
  exact parse_encodeState g st

/-- What it has written are the positions of the states accepted. -/
theorem Tells.flashLog_prefix (h : a.Tells g p) :
    a.flashLog <+: p.accepted.map (·.position) := by
  have hcons := Publisher.machine_consistent h.reachable
  rw [h.carries.stores]
  exact hcons.stores_prefix.map _

theorem Tells.mainStep (h : a.Tells g p) : (a.mainStep g).Tells g p.advance where
  carries := h.carries.mainStep
  reachable := h.reachable.step (e := .advance) rfl
  heard := by
    rw [Publisher.accepted_advance]
    unfold App.mainStep
    cases a.phase with
    | test => exact h.heard
    | flashWrite => exact h.heard
    | statusUpdate => exact h.heard.statusHvx h.last
    | clearFlag => exact h.heard
    | powerManage => exact h.heard

theorem Tells.controllerCb (h : a.Tells g p) (st : ControllerState) :
    (a.controllerCb st).Tells g (p.offer st) where
  carries := h.carries.controllerCb st
  reachable := h.reachable.step (e := .offer st) rfl
  heard := by
    have hsent : (a.controllerCb st).sent = a.sent := by
      unfold App.controllerCb
      dsimp only
      split_ifs <;> rfl
    have hgrows : p.accepted.Sublist (p.offer st).accepted := by
      unfold Publisher.offer
      split_ifs
      · exact List.Sublist.refl _
      · exact List.sublist_append_left _ _
    rw [hsent]
    exact h.heard.sublist hgrows

theorem Tells.callbacks (h : a.Tells g p) (calls : List ControllerState) :
    (calls.foldl (fun a st => a.controllerCb st) a).Tells g (p.offers calls) := by
  induction calls generalizing a p with
  | nil => exact h
  | cons st calls ih => exact ih (h.controllerCb st)

/-- A BLE event is told what the mailbox holds, if anything. -/
theorem Tells.bleEvtDispatch (h : a.Tells g p) (evt : BleEvt) :
    ∃ p', p'.accepted = p.accepted ∧ (a.bleEvtDispatch g evt).Tells g p' := by
  cases evt with
  | connected connHandle =>
      have hheard : Heard g p.accepted (a.bleEvtDispatch g (.connected connHandle)).sent :=
        (Heard.nil g p.accepted).statusHvx (a := { a with
          mStatusService := { a.mStatusService with connHandle := connHandle }
          mConnHandle := connHandle
          sent := [] }) h.last
      by_cases hconn : connHandle = bleConnHandleInvalid
      · subst hconn
        exact ⟨p.detach, rfl, h.carries.disconnected, h.reachable.step (e := .detach) rfl,
          Heard.nil g p.accepted⟩
      · exact ⟨p.attach, rfl, h.carries.connected hconn, h.reachable.step (e := .attach) rfl, hheard⟩
  | disconnected =>
      exact ⟨p.detach, rfl, h.carries.disconnected, h.reachable.step (e := .detach) rfl,
        Heard.nil g p.accepted⟩
  | write e => exact ⟨p, rfl, h⟩
  | other => exact ⟨p, rfl, h⟩

end App

/-! ## The firmware tells what the desk did -/

/-- The firmware's controller is the desk `k`, and its application tells what `p` has accepted. -/
structure Firmware.Followed (g : Geometry) (w : Firmware) (k : Desk)
    (p : Publisher ControllerState) : Prop where
  desk : w.controller.Represents k
  app : w.app.Tells g p

namespace Firmware

variable {w w' : Firmware} {k : Desk} {p : Publisher ControllerState}

/-- Of the calls of one handler one is accepted at most, and it carries the state the handler leaves
behind. -/
theorem tells_deliver (h : w.app.Tells g p) {c : Controller} (hc : w.controller.Reports c) :
    ∃ p', (w.deliver c).app.Tells g p' ∧
      (p'.accepted = p.accepted ∨ p'.accepted = p.accepted ++ [c.mState]) := by
  obtain ⟨n, hcalls, -⟩ := hc
  have hdrop : c.cbCalls.drop w.controller.cbCalls.length = List.replicate n c.mState := by
    rw [hcalls, List.drop_left]
  refine ⟨p.offers (List.replicate n c.mState), ?_, p.accepted_offers_replicate n c.mState⟩
  show ((c.cbCalls.drop w.controller.cbCalls.length).foldl _ w.app).Tells g _
  rw [hdrop]
  exact h.callbacks _

/-- The application after a BLE event is told what the control service has made of it. -/
theorem tells_ble (h : w.app.Tells g p) (evt : BleEvt) {c : Controller}
    (hc : (bleCtrlServiceOnBleEvt g evt w.mCtrlService w.controller).2 = c)
    (hreports : w.controller.Reports c) :
    ∃ p', (w.bleEvtDispatch g evt).app.Tells g p' ∧
      (p'.accepted = p.accepted ∨ p'.accepted = p.accepted ++ [c.mState]) ∧
      (c = w.controller → p'.accepted = p.accepted) := by
  let w₁ : Firmware :=
    { w with mCtrlService := (bleCtrlServiceOnBleEvt g evt w.mCtrlService w.controller).1 }
  have happ : (w.bleEvtDispatch g evt).app = ((w₁.deliver c).app).bleEvtDispatch g evt := by
    rw [← hc]
    rfl
  by_cases hsame : c = w.controller
  · have hself : (w₁.deliver c).app = w.app := by
      rw [hsame]
      exact deliver_self w₁
    obtain ⟨p', haccepted, htells⟩ := h.bleEvtDispatch evt
    rw [happ, hself]
    exact ⟨p', htells, .inl haccepted, fun _ => haccepted⟩
  · obtain ⟨p₁, htells₁, haccepted₁⟩ := tells_deliver (w := w₁) h hreports
    obtain ⟨p', haccepted, htells⟩ := htells₁.bleEvtDispatch evt
    rw [happ]
    refine ⟨p', htells, ?_, fun heq => absurd heq hsame⟩
    rw [haccepted]
    exact haccepted₁

/-- One event: either it does not concern the desk and nothing is accepted, or the state the desk is
in afterwards may be. -/
theorem Followed.step (h : w.Followed g k p) {ctrlHandle : UInt16}
    (hhandle : w.mCtrlService.valueHandle = ctrlHandle) {e : FirmwareEvent}
    (hstep : (firmwareMachine g).step w e = some w') :
    ∃ k' p', w'.Followed g k' p' ∧
      (e.ctrlEvent g ctrlHandle = none ∧ k' = k ∧ p'.accepted = p.accepted ∨
        ∃ ev, e.ctrlEvent g ctrlHandle = some ev ∧ deskMachine.step k ev = some k' ∧
          (p'.accepted = p.accepted ∨ p'.accepted = p.accepted ++ [k'.state])) := by
  -- an event that the control service makes nothing of
  have hnothing : ∀ evt, e = .ble evt → e.ctrlEvent g ctrlHandle = none →
      (bleCtrlServiceOnBleEvt g evt w.mCtrlService w.controller).2 = w.controller →
      ∃ k' p', w'.Followed g k' p' ∧
        (e.ctrlEvent g ctrlHandle = none ∧ k' = k ∧ p'.accepted = p.accepted ∨
          ∃ ev, e.ctrlEvent g ctrlHandle = some ev ∧ deskMachine.step k ev = some k' ∧
            (p'.accepted = p.accepted ∨ p'.accepted = p.accepted ++ [k'.state])) := by
    rintro evt rfl hevent hsame
    cases hstep
    obtain ⟨p', htells, -, haccepted⟩ := tells_ble h.app evt hsame (.refl w.controller)
    refine ⟨k, p', ⟨?_, htells⟩, .inl ⟨hevent, rfl, haccepted rfl⟩⟩
    show (bleCtrlServiceOnBleEvt g evt w.mCtrlService w.controller).2.Represents k
    rw [hsame]
    exact h.desk
  cases e with
  | mainStep =>
      cases hstep
      exact ⟨k, p.advance, ⟨h.desk, h.app.mainStep⟩, .inl ⟨rfl, rfl, p.accepted_advance⟩⟩
  | tick r =>
      obtain ⟨hrun, rfl⟩ := (step_tick_eq_some g).mp hstep
      obtain ⟨k', hk, hdesk⟩ := h.desk.tick hrun r
      obtain ⟨p', htells, haccepted⟩ := tells_deliver h.app (h.desk.regular.tick_reports hrun r)
      rw [hdesk.state] at haccepted
      exact ⟨k', p', ⟨hdesk, htells⟩, .inr ⟨_, rfl, hk, haccepted⟩⟩
  | ble evt =>
      cases evt with
      | connected connHandle => exact hnothing _ rfl rfl rfl
      | disconnected => exact hnothing _ rfl rfl rfl
      | other => exact hnothing _ rfl rfl rfl
      | write we =>
          have hc := bleCtrlServiceOnWrite_eq g w.mCtrlService we w.controller
          rw [WriteEvt.command?_of_valueHandle
            (show w.mCtrlService.valueHandle =
              (CtrlService.mk bleConnHandleInvalid ctrlHandle).valueHandle from hhandle)] at hc
          have hevent : (FirmwareEvent.ble (.write we)).ctrlEvent g ctrlHandle =
              (we.command? g ⟨bleConnHandleInvalid, ctrlHandle⟩).map .command := rfl
          cases hcmd : we.command? g ⟨bleConnHandleInvalid, ctrlHandle⟩ with
          | none =>
              rw [hcmd] at hc hevent
              exact hnothing _ rfl hevent hc
          | some cmd =>
              rw [hcmd] at hc hevent
              cases hstep
              have hdesk := h.desk.command cmd
              obtain ⟨p', htells, haccepted, -⟩ :=
                tells_ble h.app (.write we) hc (h.desk.regular.command_reports cmd)
              rw [hdesk.state] at haccepted
              refine ⟨k.command cmd, p', ⟨?_, htells⟩, .inr ⟨_, hevent, rfl, haccepted⟩⟩
              show (bleCtrlServiceOnWrite g w.mCtrlService we w.controller).Represents _
              rw [hc]
              exact hdesk

theorem Followed.run {ctrlHandle : UInt16} {es : List FirmwareEvent} (h : w.Followed g k p)
    (hhandle : w.mCtrlService.valueHandle = ctrlHandle)
    (hrun : (firmwareMachine g).run w es = some w') :
    ∃ k' p' told, w'.Followed g k' p' ∧ p'.accepted = p.accepted ++ told ∧
      told.Sublist ((deskMachine.trace k
        (es.filterMap (FirmwareEvent.ctrlEvent g ctrlHandle))).map Desk.state) := by
  induction es generalizing w k p with
  | nil =>
      cases hrun
      exact ⟨k, p, [], h, (List.append_nil _).symm, List.nil_sublist _⟩
  | cons e es ih =>
      obtain ⟨w₁, hstep, hrest⟩ := Machine.run_cons_eq_some.mp hrun
      obtain ⟨k₁, p₁, h₁, hone⟩ := h.step hhandle hstep
      obtain ⟨k', p', told, h', haccepted, hsub⟩ :=
        ih h₁ ((valueHandle_step hstep).trans hhandle) hrest
      rcases hone with ⟨hevent, rfl, hsame⟩ | ⟨ev, hevent, hk, hsame | hnew⟩
      · rw [List.filterMap_cons_none hevent]
        exact ⟨k', p', told, h', by rw [haccepted, hsame], hsub⟩
      · rw [List.filterMap_cons_some hevent, Machine.trace_cons_of_some hk]
        exact ⟨k', p', told, h', by rw [haccepted, hsame], hsub.cons _⟩
      · rw [List.filterMap_cons_some hevent, Machine.trace_cons_of_some hk]
        refine ⟨k', p', k₁.state :: told, h', ?_, hsub.cons_cons _⟩
        rw [haccepted, hnew, List.append_assoc, List.singleton_append]

theorem boot_followed (chip : M45peChip) (inPinState : UInt32) (ctrlHandle statusHandle : UInt16) :
    (boot chip inPinState ctrlHandle statusHandle).Followed g (.start chip.position inPinState)
      (.start (Desk.start chip.position inPinState).state) := by
  have hdesk : (boot chip inPinState ctrlHandle statusHandle).controller.Represents
      (.start chip.position inPinState) := by
    rw [boot_controller]
    exact Controller.represents_start chip.position inPinState
  refine ⟨hdesk, ?_⟩
  obtain ⟨hdone, -, -⟩ := systemInit_eq (d := (M45pe.powerUp chip).m45Init) rfl inPinState
  rw [← hdesk.state]
  exact ⟨App.carriesOut_start hdone statusHandle _, .init ⟨_, rfl⟩, Heard.nil g _⟩

/-- **What a client is told is what the desk did.** From every flash content, along every run, there is
a list of states `told`, taken in order from those of the desk, which started at the stored position
and carried out the commands and ticks of the run: the positions handed to the flash are those of its
first states, one after the other; and each notification sent on the current connection parses, to
its last byte, as the report of one of its states, never of an earlier one than the notification
before. -/
theorem tells_history (chip : M45peChip) (inPinState : UInt32) (ctrlHandle statusHandle : UInt16)
    {es : List FirmwareEvent}
    (hrun : (firmwareMachine g).run (boot chip inPinState ctrlHandle statusHandle) es = some w) :
    ∃ told : List ControllerState,
      told.Sublist (((Desk.start chip.position inPinState) ::
        deskMachine.trace (.start chip.position inPinState)
          (es.filterMap (FirmwareEvent.ctrlEvent g ctrlHandle))).map Desk.state) ∧
      w.app.flashLog <+: told.map (·.position) ∧
      ∃ seen, Follows told seen ∧ List.Forall₂
        (fun hvx st => Report.codec.parse hvx.data = some (st.report g, [])) w.app.sent seen := by
  have hhandle : (boot chip inPinState ctrlHandle statusHandle).mCtrlService.valueHandle =
      ctrlHandle := rfl
  obtain ⟨k, p, told, h, haccepted, hsub⟩ :=
    (boot_followed (g := g) chip inPinState ctrlHandle statusHandle).run hhandle hrun
  have haccepted : p.accepted = (Desk.start chip.position inPinState).state :: told := haccepted
  obtain ⟨seen, hfollows, hsent⟩ := h.app.parses
  rw [haccepted] at hfollows
  refine ⟨(Desk.start chip.position inPinState).state :: told, hsub.cons_cons _, ?_, seen, hfollows,
    hsent⟩
  rw [← haccepted]
  exact h.app.flashLog_prefix

/-- A client that connects before the first iteration is told of a state the desk was in, here at rest
or on its way to tick `11`. -/
theorem tells_history_padded :
    ∃ w told, (firmwareMachine .shipped).run bootAtZero padded = some w ∧ w.app.sent.length = 1 ∧
      told.Sublist ((Desk.start 0 0 :: deskMachine.trace (.start 0 0)
        [.command (.target 11), .tick 1, .command (.extremum 0), .tick 1]).map Desk.state) ∧
      ∃ seen, Follows told seen ∧ List.Forall₂
        (fun hvx st => Report.codec.parse hvx.data = some (st.report .shipped, [])) w.app.sent
          seen := by
  have hrun : ∃ w, (firmwareMachine .shipped).run bootAtZero padded = some w ∧
      w.app.sent.length = 1 := ⟨_, rfl, rfl⟩
  have hread : padded.filterMap (FirmwareEvent.ctrlEvent .shipped 7) =
      [.command (.target 11), .tick 1, .command (.extremum 0), .tick 1] := by decide
  obtain ⟨w, hw, hlen⟩ := hrun
  have h := tells_history (g := .shipped) ⟨fun _ => 0, false, fun _ => 0⟩ 0 7 14 hw
  obtain ⟨told, hsub, -, hseen⟩ := h
  rw [hread] at hsub
  exact ⟨w, told, hw, hlen, hsub, hseen⟩

end Firmware

end Acromegaly
