import Acromegaly.Publish.Interrupted
import Acromegaly.Publish.Telemetry

/-!
# One life after the other

The whole of it, seen from outside. A board runs its main loop access by access, its handlers fall
between any two of them, and its power is cut wherever it likes. What is to be seen of it is a desk
that does what it is asked, and that after a power cut is where it has been at some time before
(`Board.lives`). What is read from its notifications and its flash is the history of the present
life, with omissions.

`Lives` says this without a mailbox, a flash or a main loop.
-/

namespace Acromegaly

open Found

/-! ## Lives -/

/-- A desk through power cuts. -/
structure Lives where
  desk : Desk
  /-- The states of the present life, oldest first. -/
  been : List ControllerState

/-- What can happen to it. -/
inductive LivesEvent
  | ctrl (e : CtrlEvent)
  /-- The power is cut and comes back; `position` is where the desk is taken to be, and `level` is the
  first level of the input pin. -/
  | powerCycle (position : Int16) (level : UInt32)

namespace Lives

/-- The beginning of a life. -/
def start (position : Int16) (level : UInt32) : Lives where
  desk := .start position level
  been := [(Desk.start position level).state]

/-- One event. A new life begins where the desk has been in the one before. -/
def step (l : Lives) : LivesEvent → Option Lives
  | .ctrl e => (l.desk.step e).map fun k => ⟨k, l.been ++ [k.state]⟩
  | .powerCycle position level =>
      if position ∈ l.been.map (·.position) then some (.start position level) else none

end Lives

/-- The lives of a desk, from every position and every first level. -/
def livesMachine : Machine Lives LivesEvent where
  init l := ∃ position level, l = .start position level
  step := Lives.step

/-- What comes from outside: a command or a tick, or a power cut with the first level after it. -/
def LivesEvent.outside : LivesEvent → CtrlEvent ⊕ UInt32
  | .ctrl e => .inl e
  | .powerCycle _ level => .inr level

/-- What comes from outside to a device, when `ctrlHandle` is the handle of the control
characteristic in the present life. -/
def outside (g : Geometry) : UInt16 → List DeviceEvent → List (CtrlEvent ⊕ UInt32)
  | _, [] => []
  | ctrlHandle, .firmware e :: es =>
      ((e.ctrlEvent g ctrlHandle).map .inl).toList ++ outside g ctrlHandle es
  | _, .reboot _ _ inPinState ctrlHandle _ :: es => .inr inPinState :: outside g ctrlHandle es

/-- Nothing of it comes from the main loop. -/
theorem outside_interrupt (g : Geometry) (ctrlHandle : UInt16) (es : List DeviceEvent) :
    outside g ctrlHandle (es.filterMap DeviceEvent.interrupt) = outside g ctrlHandle es := by
  induction es generalizing ctrlHandle with
  | nil => rfl
  | cons e es ih =>
      have hkept : ∀ e : DeviceEvent, e.interrupt = some e →
          outside g ctrlHandle ((e :: es).filterMap DeviceEvent.interrupt) =
            outside g ctrlHandle (e :: es) := by
        intro e he
        rw [List.filterMap_cons_some he]
        cases e with
        | firmware e => simp only [outside, ih]
        | reboot latch floating inPinState ctrlHandle' statusHandle => simp only [outside, ih]
      cases e with
      | reboot latch floating inPinState ctrlHandle' statusHandle => exact hkept _ rfl
      | firmware e =>
          cases e with
          | mainStep => exact ih ctrlHandle
          | tick r => exact hkept _ rfl
          | ble evt => exact hkept _ rfl

/-! ## A device lives -/

/-- The device is in the life `l`, and its application tells what `p` has accepted in it. -/
structure Device.Lived (g : Geometry) (dev : Device) (l : Lives)
    (p : Publisher ControllerState) : Prop where
  persistent : dev.Persistent
  followed : dev.firmware.Followed g l.desk p
  accepted : p.accepted.Sublist l.been
  inherited : dev.inherited ∈ l.been.map (·.position)

namespace Device

variable {g : Geometry} {dev dev' : Device} {l : Lives} {p : Publisher ControllerState}

/-- What is persisted is a position of the present life. -/
theorem Lived.persisted (h : dev.Lived g l p) : dev.persisted ∈ l.been.map (·.position) := by
  unfold Device.persisted
  cases hlast : dev.firmware.app.flashLog.getLast? with
  | none => exact h.inherited
  | some x =>
      have hx : x ∈ p.accepted.map (·.position) :=
        h.followed.app.flashLog_prefix.subset (List.mem_of_getLast? hlast)
      exact (h.accepted.map _).subset hx

theorem lived_boot {chip : M45peChip} {x : Int16} (hx : chip.position = x) (inPinState : UInt32)
    (ctrlHandle statusHandle : UInt16) :
    ∃ p, Lived g ⟨.boot chip inPinState ctrlHandle statusHandle, x⟩ (.start x inPinState) p := by
  subst hx
  refine ⟨_, persistent_boot rfl inPinState ctrlHandle statusHandle,
    Firmware.boot_followed chip inPinState ctrlHandle statusHandle, List.Sublist.refl _, ?_⟩
  exact List.mem_singleton.mpr rfl

/-- A step of the firmware is a step of the desk, or it is not seen. -/
theorem Lived.firmware (h : dev.Lived g l p) {e : FirmwareEvent} {w : Firmware}
    (hstep : (firmwareMachine g).step dev.firmware e = some w) :
    ∃ ls l' p', livesMachine.run l ls = some l' ∧
      ls.map LivesEvent.outside =
        ((e.ctrlEvent g dev.firmware.mCtrlService.valueHandle).map .inl).toList ∧
      Lived g { dev with firmware := w } l' p' := by
  obtain ⟨k', p', hfollowed, ⟨hnone, rfl, hsame⟩ | ⟨ev, hev, hk, haccepted⟩⟩ :=
    h.followed.step rfl hstep
  · refine ⟨[], l, p', rfl, ?_, h.persistent.firmware hstep, hfollowed, ?_, h.inherited⟩
    · rw [hnone]
      rfl
    · rw [hsame]
      exact h.accepted
  · have hlives : livesMachine.step l (.ctrl ev) = some ⟨k', l.been ++ [k'.state]⟩ := by
      show (l.desk.step ev).map _ = _
      rw [show l.desk.step ev = some k' from hk]
      rfl
    refine ⟨[.ctrl ev], _, p', (Machine.run_singleton _ _).trans hlives, ?_,
      h.persistent.firmware hstep, hfollowed, ?_, ?_⟩
    · rw [hev]
      rfl
    · rcases haccepted with hsame | hnew
      · rw [hsame]
        exact h.accepted.trans (List.sublist_append_left _ _)
      · rw [hnew]
        exact h.accepted.append (List.Sublist.refl _)
    · show dev.inherited ∈ (l.been ++ [k'.state]).map (·.position)
      rw [List.map_append]
      exact List.mem_append_left _ h.inherited

/-- After a power cut a new life begins at the position persisted. -/
theorem Lived.reboot (h : dev.Lived g l p) (latch : Bool) (floating : ℕ → UInt8)
    (inPinState : UInt32) (ctrlHandle statusHandle : UInt16) :
    ∃ l' p', livesMachine.run l [.powerCycle dev.persisted inPinState] = some l' ∧
      Lived g ⟨.boot ⟨dev.firmware.app.m45pe.chip.mem, latch, floating⟩ inPinState ctrlHandle
        statusHandle, dev.persisted⟩ l' p' := by
  have hchip : M45peChip.position ⟨dev.firmware.app.m45pe.chip.mem, latch, floating⟩ =
      dev.persisted := h.persistent.position
  obtain ⟨p', hp'⟩ := lived_boot (g := g) hchip inPinState ctrlHandle statusHandle
  exact ⟨_, p', (Machine.run_singleton _ _).trans (if_pos h.persisted), hp'⟩

/-- A run of the device is a run of lives. -/
theorem Lived.run {ctrlHandle : UInt16} {es : List DeviceEvent} (h : dev.Lived g l p)
    (hhandle : dev.firmware.mCtrlService.valueHandle = ctrlHandle)
    (hrun : (deviceMachine g).run dev es = some dev') :
    ∃ ls l' p', livesMachine.run l ls = some l' ∧
      ls.map LivesEvent.outside = outside g ctrlHandle es ∧ dev'.Lived g l' p' := by
  induction es generalizing dev l p ctrlHandle with
  | nil =>
      cases hrun
      exact ⟨[], l, p, rfl, rfl, h⟩
  | cons e es ih =>
      obtain ⟨dev₁, hstep, hrest⟩ := Machine.run_cons_eq_some.mp hrun
      cases e with
      | firmware e =>
          obtain ⟨w, hw, rfl⟩ := Option.map_eq_some_iff.mp hstep
          obtain ⟨ls₁, l₁, p₁, hls₁, hseen₁, h₁⟩ := h.firmware hw
          obtain ⟨ls, l', p', hls, hseen, h'⟩ :=
            ih h₁ ((Firmware.valueHandle_step hw).trans hhandle) hrest
          refine ⟨ls₁ ++ ls, l', p', Machine.run_append_eq_some.mpr ⟨l₁, hls₁, hls⟩, ?_, h'⟩
          rw [List.map_append, hseen₁, hseen, hhandle]
          rfl
      | reboot latch floating inPinState ctrlHandle' statusHandle =>
          obtain rfl := Option.some.inj hstep
          obtain ⟨l₁, p₁, hl₁, h₁⟩ := h.reboot latch floating inPinState ctrlHandle' statusHandle
          obtain ⟨ls, l', p', hls, hseen, h'⟩ := ih h₁ rfl hrest
          refine ⟨_ :: ls, l', p', Machine.run_append_eq_some.mpr ⟨l₁, hl₁, hls⟩, ?_, h'⟩
          rw [List.map_cons, hseen]
          rfl

end Device

/-! ## So does a board -/

/-- **What is to be seen of a board.** From its first boot on any chip, for every run, with handlers and
power cuts between any two accesses of the main loop, there is a run of lives with the same commands,
ticks and power cuts in the same order. At its end the controller shows what the desk shows, the
position persisted is one of the present life, and of the states of this life a part, in order, has
been told: the positions written in it are those of its first states, and each notification on the
current connection parses as the report of one of its states, never of an earlier one than the
notification before. -/
theorem Board.lives {g : Geometry} {b : Board} (chip : M45peChip) (inPinState : UInt32)
    (ctrlHandle statusHandle : UInt16) {es : List DeviceEvent}
    (hrun : (boardMachine g).run
      ⟨⟨.boot chip inPinState ctrlHandle statusHandle, chip.position⟩, .start⟩ es = some b) :
    ∃ ls l, livesMachine.run (.start chip.position inPinState) ls = some l ∧
      ls.map LivesEvent.outside = outside g ctrlHandle es ∧
      b.device.firmware.controller.observed = l.desk.observed ∧
      b.device.persisted ∈ l.been.map (·.position) ∧
      ∃ told : List ControllerState, told.Sublist l.been ∧
        b.device.firmware.app.flashLog <+: told.map (·.position) ∧
        ∃ seen, Follows told seen ∧ List.Forall₂
          (fun hvx st => Report.codec.parse hvx.data = some (st.report g, []))
          b.device.firmware.app.sent seen := by
  have hinit : (deviceMachine g).Reachable
      ⟨.boot chip inPinState ctrlHandle statusHandle, chip.position⟩ :=
    .init ⟨chip, inPinState, ctrlHandle, statusHandle, rfl⟩
  obtain ⟨fs, dev, hfs, hvis, hrel⟩ := (atomic g).run (describedBy_boot hinit) hrun
  have hrel : b.DescribedBy g dev := hrel
  obtain ⟨p₀, h₀⟩ := Device.lived_boot (g := g) (rfl : chip.position = chip.position) inPinState
    ctrlHandle statusHandle
  obtain ⟨ls, l, p, hls, hseen, h⟩ := h₀.run rfl hfs
  have hread : outside g ctrlHandle fs = outside g ctrlHandle es := by
    rw [← outside_interrupt g ctrlHandle fs, hvis, outside_interrupt]
  refine ⟨ls, l, hls, hseen.trans hread, ?_⟩
  rw [hrel.device]
  exact ⟨h.followed.desk.observed_eq, h.persisted, p.accepted, h.accepted,
    h.followed.app.flashLog_prefix, h.followed.app.parses⟩

/-- The power is cut before the last transfer of a write and comes back. -/
def cutMidWrite : List DeviceEvent := Board.midWrite ++ [.reboot true (fun _ => 0) 1 7 14]

theorem Board.lives_cutMidWrite :
    ∃ b ls l, (boardMachine .shipped).run Board.atBoot cutMidWrite = some b ∧
      livesMachine.run (.start 0 0) ls = some l ∧
      ls.map LivesEvent.outside = [.inl (.command (.target 11)), .inl (.tick 1), .inr 1] ∧
      b.device.firmware.controller.observed = l.desk.observed ∧
      b.device.persisted ∈ l.been.map (·.position) := by
  have hrun : ∃ b, (boardMachine .shipped).run Board.atBoot cutMidWrite = some b := ⟨_, rfl⟩
  have hread : outside .shipped 7 cutMidWrite =
      [.inl (.command (.target 11)), .inl (.tick 1), .inr 1] := by decide
  obtain ⟨b, hb⟩ := hrun
  have h := Board.lives ⟨fun _ => 0, false, fun _ => 0⟩ 0 7 14 hb
  obtain ⟨ls, l, hls, hseen, hobserved, hpersisted, -⟩ := h
  rw [hread] at hseen
  exact ⟨b, ls, l, hb, hls, hseen, hobserved, hpersisted⟩

end Acromegaly
