import Acromegaly.Motion.Parts
import Acromegaly.Publish.Mailbox

/-!
# Persistence

Seen through its driver the flash chip is a memory of bytes. Whatever calls came before, the next
one is not skipped, a read fetches for each address the byte written to it last, and a write changes
no other address (`Persists`, one lemma for each call).

The firmware uses two of these bytes. A reboot starts `main` anew on the memory the chip holds;
`Device` is the firmware across any number of reboots, and what `system_init` reads is the position
the main loop has written last, in whichever life (`reachable_persistent`).
-/

namespace Acromegaly

open Found

/-! ## Calls of the driver -/

/-- A call of the driver. `val` is the memory the caller's pointer points to, `len` its length. -/
inductive M45peCall
  | m45Init
  | write (key : UInt8) (val : List UInt8)
  | read (key : UInt8) (val : List UInt8)

/-- The bytes fit the driver's buffers, and they do not reach beyond the addresses of one page. -/
def M45peCall.Fits : M45peCall → Prop
  | .m45Init => True
  | .write key val | .read key val => val.length ≤ 8 ∧ key.toNat + val.length ≤ 256

/-- What a call writes, if anything: the address and the bytes. -/
def M45peCall.written : M45peCall → Option (ℕ × List UInt8)
  | .write key val => some (key.toNat, val)
  | _ => none

/-- The writes among some calls, newest first. -/
def writeLog (calls : List M45peCall) : List (ℕ × List UInt8) :=
  (calls.filterMap M45peCall.written).reverse

namespace M45pe

/-- Carry out a call. -/
def call (d : M45pe) : M45peCall → M45pe
  | .m45Init => d.m45Init
  | .write key val => d.m45peWrite key val
  | .read key val => (d.m45peRead key val).1

/-- Carry out calls, oldest first. -/
def callAll (d : M45pe) (calls : List M45peCall) : M45pe := calls.foldl call d

/-- The driver is ready for the next call, and the chip holds what `log`, newest first, has left in
the memory `mem`. -/
structure Persists (mem : ℕ → UInt8) (log : List (ℕ × List UInt8)) (d : M45pe) : Prop where
  done : d.spiXferDone = true
  mem : d.chip.mem = fun i => lastWritten mem i log

variable {mem : ℕ → UInt8} {log : List (ℕ × List UInt8)} {d : M45pe}

theorem persists_init (d : M45pe) : Persists d.chip.mem [] d.m45Init where
  done := rfl
  mem := rfl

theorem Persists.write (h : Persists mem log d) (key : UInt8) {val : List UInt8}
    (hlen : val.length ≤ 8) : Persists mem ((key.toNat, val) :: log) (d.m45peWrite key val) := by
  obtain ⟨hdone, hmem⟩ := m45peWrite_of_done h.done key hlen
  refine ⟨hdone, ?_⟩
  rw [hmem, h.mem]
  exact store_lastWritten mem key.toNat val log

theorem Persists.read (h : Persists mem log d) (key : UInt8) {val : List UInt8}
    (hlen : val.length ≤ 8) : Persists mem log (d.m45peRead key val).1 := by
  obtain ⟨hdone, hchip, -⟩ := m45peRead_of_done h.done key hlen
  refine ⟨hdone, ?_⟩
  rw [hchip]
  exact h.mem

/-- A call adds what it writes to the log. -/
theorem Persists.call (h : Persists mem log d) {c : M45peCall} (hfit : c.Fits) :
    Persists mem (c.written.toList ++ log) (d.call c) := by
  cases c with
  | m45Init => exact ⟨rfl, h.mem⟩
  | write key val => exact h.write key hfit.1
  | read key val => exact h.read key hfit.1

/-- So does a sequence of calls. -/
theorem Persists.callAll (h : Persists mem log d) {calls : List M45peCall}
    (hfit : ∀ c ∈ calls, c.Fits) : Persists mem (writeLog calls ++ log) (d.callAll calls) := by
  induction calls generalizing d log with
  | nil => exact h
  | cons c calls ih =>
      have hnext := ih (h.call (hfit c List.mem_cons_self))
        (fun c' hc' => hfit c' (List.mem_cons_of_mem c hc'))
      have hlog : writeLog (c :: calls) ++ log =
          writeLog calls ++ (c.written.toList ++ log) := by
        unfold writeLog
        cases hw : c.written with
        | none => simp [hw]
        | some w => simp [hw]
      rw [hlog]
      exact hnext

end M45pe

/-! ## Reboots -/

/-- The firmware across reboots. -/
structure Device where
  firmware : Firmware
  /-- History: the position last persisted before the present life, or, in the first one, the
  position the chip came with. -/
  inherited : Int16

/-- The position last persisted: the last one the main loop has written in this life, or else the
inherited one. -/
def Device.persisted (dev : Device) : Int16 :=
  dev.firmware.app.flashLog.getLast?.getD dev.inherited

/-- What can happen to a device. After a power cycle the chip holds what it held; its latch and what
it sends while it is not driven are as they come. -/
inductive DeviceEvent
  | firmware (e : FirmwareEvent)
  | reboot (latch : Bool) (floating : ℕ → UInt8) (inPinState : UInt32)
      (ctrlHandle statusHandle : UInt16)

/-- One event. -/
def Device.step (g : Geometry) (dev : Device) : DeviceEvent → Option Device
  | .firmware e => ((firmwareMachine g).step dev.firmware e).map fun w => { dev with firmware := w }
  | .reboot latch floating inPinState ctrlHandle statusHandle =>
      let chip : M45peChip := ⟨dev.firmware.app.m45pe.chip.mem, latch, floating⟩
      some
        { firmware := .boot chip inPinState ctrlHandle statusHandle
          inherited := dev.persisted }

/-- The device's runs, from its first boot on any chip. -/
def deviceMachine (g : Geometry) : Machine Device DeviceEvent where
  init dev := ∃ chip inPinState ctrlHandle statusHandle,
    dev = ⟨.boot chip inPinState ctrlHandle statusHandle, chip.position⟩
  step := Device.step g

/-! ### What the firmware does to the flash -/

namespace Firmware

variable {g : Geometry}

/-- Callbacks leave the flash and its history alone. -/
theorem flash_callbacks (a : App) (calls : List ControllerState) :
    (calls.foldl (fun a state => a.controllerCb state) a).m45pe = a.m45pe ∧
      (calls.foldl (fun a state => a.controllerCb state) a).flashLog = a.flashLog := by
  induction calls generalizing a with
  | nil => exact ⟨rfl, rfl⟩
  | cons st calls ih =>
      have hcb : (a.controllerCb st).m45pe = a.m45pe ∧
          (a.controllerCb st).flashLog = a.flashLog := by
        unfold App.controllerCb
        dsimp only
        split_ifs
        · exact ⟨rfl, rfl⟩
        · exact ⟨rfl, rfl⟩
      rw [List.foldl_cons, ← hcb.1, ← hcb.2]
      exact ih (a.controllerCb st)

theorem flash_deliver (c : Controller) (w : Firmware) :
    (w.deliver c).app.m45pe = w.app.m45pe ∧ (w.deliver c).app.flashLog = w.app.flashLog :=
  flash_callbacks w.app _

/-- BLE events leave them alone as well. -/
theorem flash_bleEvtDispatch (a : App) (evt : BleEvt) :
    (a.bleEvtDispatch g evt).m45pe = a.m45pe ∧
      (a.bleEvtDispatch g evt).flashLog = a.flashLog := by
  cases evt with
  | connected connHandle => exact ⟨rfl, rfl⟩
  | disconnected => exact ⟨rfl, rfl⟩
  | write e => exact ⟨rfl, rfl⟩
  | other => exact ⟨rfl, rfl⟩

/-- What a step does to the flash: nothing, or it writes a position and records it. -/
theorem step_flash {w w' : Firmware} {e : FirmwareEvent}
    (hstep : (firmwareMachine g).step w e = some w') :
    (w'.app.m45pe = w.app.m45pe ∧ w'.app.flashLog = w.app.flashLog) ∨
    ∃ x, w'.app.m45pe = w.app.m45pe.m45peWrite flashCtrlPosKey (int16Bytes x) ∧
      w'.app.flashLog = w.app.flashLog ++ [x] := by
  cases e with
  | mainStep =>
      cases hstep
      show ((w.app.mainStep g).m45pe = _ ∧ (w.app.mainStep g).flashLog = _) ∨
        ∃ x, (w.app.mainStep g).m45pe = _ ∧ (w.app.mainStep g).flashLog = _
      unfold App.mainStep
      cases w.app.phase with
      | test => exact .inl ⟨rfl, rfl⟩
      | flashWrite => exact .inr ⟨w.app.ctrlState.position, rfl, rfl⟩
      | statusUpdate => exact .inl ⟨rfl, rfl⟩
      | clearFlag => exact .inl ⟨rfl, rfl⟩
      | powerManage => exact .inl ⟨rfl, rfl⟩
  | tick r =>
      obtain ⟨-, rfl⟩ := (step_tick_eq_some g).mp hstep
      exact .inl (flash_deliver _ w)
  | ble evt =>
      cases hstep
      let served := bleCtrlServiceOnBleEvt g evt w.mCtrlService w.controller
      obtain ⟨h₁, h₂⟩ := flash_deliver served.2 { w with mCtrlService := served.1 }
      obtain ⟨h₃, h₄⟩ := flash_bleEvtDispatch (g := g)
        (deliver served.2 { w with mCtrlService := served.1 }).app evt
      exact .inl ⟨h₃.trans h₁, h₄.trans h₂⟩

/-- Booting reads the flash and writes nothing. -/
theorem boot_flash (chip : M45peChip) (inPinState : UInt32) (ctrlHandle statusHandle : UInt16) :
    (boot chip inPinState ctrlHandle statusHandle).app.m45pe.spiXferDone = true ∧
      (boot chip inPinState ctrlHandle statusHandle).app.m45pe.chip = chip ∧
      (boot chip inPinState ctrlHandle statusHandle).app.flashLog = [] := by
  obtain ⟨hdone, hchip, -⟩ := systemInit_eq (d := (M45pe.powerUp chip).m45Init) rfl inPinState
  obtain ⟨h₁, h₂⟩ := flash_callbacks
    (.beforeInitFinished (systemInit inPinState (M45pe.powerUp chip).m45Init).1 statusHandle) _
  refine ⟨?_, ?_, h₂⟩
  · exact (congrArg M45pe.spiXferDone h₁).trans hdone
  · exact (congrArg M45pe.chip h₁).trans hchip

end Firmware

/-! ### The position across reboots -/

/-- The driver is ready and the chip holds the position last persisted. -/
structure Device.Persistent (dev : Device) : Prop where
  done : dev.firmware.app.m45pe.spiXferDone = true
  position : dev.firmware.app.m45pe.chip.position = dev.persisted

namespace Device

variable {g : Geometry}

/-- After a boot on a chip that holds the inherited position. -/
theorem persistent_boot {chip : M45peChip} {x : Int16} (hx : chip.position = x)
    (inPinState : UInt32) (ctrlHandle statusHandle : UInt16) :
    Persistent ⟨.boot chip inPinState ctrlHandle statusHandle, x⟩ := by
  obtain ⟨hdone, hchip, hlog⟩ := Firmware.boot_flash chip inPinState ctrlHandle statusHandle
  refine ⟨hdone, ?_⟩
  unfold persisted
  rw [hchip, hlog, hx]
  rfl

theorem Persistent.firmware {dev : Device} (h : dev.Persistent) {w : Firmware} {e : FirmwareEvent}
    (hstep : (firmwareMachine g).step dev.firmware e = some w) :
    Persistent { dev with firmware := w } := by
  rcases Firmware.step_flash hstep with ⟨hflash, hlog⟩ | ⟨x, hflash, hlog⟩
  · refine ⟨?_, ?_⟩
    · rw [hflash]
      exact h.done
    · unfold persisted
      rw [hflash, hlog]
      exact h.position
  · have hlen : (int16Bytes x).length ≤ 8 := by
      show 2 ≤ 8
      omega
    refine ⟨?_, ?_⟩
    · rw [hflash]
      exact (M45pe.m45peWrite_of_done h.done flashCtrlPosKey hlen).1
    · unfold persisted
      rw [hflash, hlog, position_m45peWrite h.done, List.getLast?_concat]
      rfl

theorem Persistent.step {dev dev' : Device} (h : dev.Persistent) {e : DeviceEvent}
    (hstep : (deviceMachine g).step dev e = some dev') : dev'.Persistent := by
  cases e with
  | firmware e =>
      obtain ⟨w, hw, rfl⟩ := Option.map_eq_some_iff.mp hstep
      exact h.firmware hw
  | reboot latch floating inPinState ctrlHandle statusHandle =>
      obtain rfl := Option.some.inj hstep
      have hpos : M45peChip.position ⟨dev.firmware.app.m45pe.chip.mem, latch, floating⟩ =
          dev.persisted := h.position
      exact persistent_boot hpos inPinState ctrlHandle statusHandle

/-- After any run of the main loop, of ticks, BLE events and reboots, the chip holds the position
last persisted. -/
theorem reachable_persistent {dev : Device} (h : (deviceMachine g).Reachable dev) :
    dev.Persistent := by
  refine h.invariant ?_ fun dev e dev' hdev hstep => hdev.step hstep
  rintro _ ⟨chip, inPinState, ctrlHandle, statusHandle, rfl⟩
  exact persistent_boot rfl inPinState ctrlHandle statusHandle

end Device

/-- **The persistence round trip.** After `m45_init` and any calls that fit, the next call is not
skipped, a read fills its buffer with the bytes written last to each address (or the chip's first
content), and a write changes no other address. And across any number of reboots, `system_init`
hands the controller the position last persisted. -/
theorem persistence_round_trip (d : M45pe) {calls : List M45peCall} (hfit : ∀ c ∈ calls, c.Fits) :
    ((d.m45Init.callAll calls).spiXferDone = true ∧
      (∀ key val, (M45peCall.read key val).Fits →
        ((d.m45Init.callAll calls).m45peRead key val).2 =
          load (fun i => lastWritten d.chip.mem i (writeLog calls)) key.toNat val.length) ∧
      (∀ key val, (M45peCall.write key val).Fits → ∀ i, i < key.toNat ∨ key.toNat + val.length ≤ i →
        ((d.m45Init.callAll calls).m45peWrite key val).chip.mem i =
          (d.m45Init.callAll calls).chip.mem i)) ∧
    ∀ (g : Geometry) (dev : Device), (deviceMachine g).Reachable dev →
      ∀ (latch : Bool) (floating : ℕ → UInt8) (inPinState : UInt32),
        (Firmware.systemInit inPinState
          (M45pe.powerUp ⟨dev.firmware.app.m45pe.chip.mem, latch, floating⟩).m45Init).2 =
          .controllerInit dev.persisted.toInt32 inPinState := by
  have hpersists := (M45pe.persists_init d).callAll hfit
  rw [List.append_nil] at hpersists
  refine ⟨⟨hpersists.done, ?_, ?_⟩, ?_⟩
  · intro key val hread
    rw [(M45pe.m45peRead_of_done hpersists.done key hread.1).2.2, hpersists.mem]
  · intro key val hwrite i hi
    rw [(M45pe.m45peWrite_of_done hpersists.done key hwrite.1).2]
    exact store_of_outside hi
  · intro g dev hdev latch floating inPinState
    rw [(Firmware.systemInit_eq rfl inPinState).2.2, ← (Device.reachable_persistent hdev).position]
    rfl

/-- A desk that is sent to 840 mm, counts an edge and writes position `1`. -/
def persistedMove : List FirmwareEvent :=
  List.replicate 4 .mainStep ++ .ble (.write (.ofBytes 7 [0x60, 0x48, 0x03])) ::
    (List.replicate 5 .mainStep ++ .tick 1 :: List.replicate 3 .mainStep)

/-- The same, and then a reboot. -/
def rebootedMove : List DeviceEvent :=
  persistedMove.map .firmware ++ [.reboot true (fun _ => 0) 1 7 14]

/-- A read across two overlapping writes, and a position that survives a reboot. -/
theorem persistence_round_trip_overlap :
    (((M45pe.powerUp ⟨fun _ => 0xEE, false, fun _ => 0⟩).m45Init.callAll
        [.write 8 [1, 2, 3], .read 8 [0, 0], .write 9 [7]]).m45peRead 7 [0, 0, 0, 0, 0]).2 =
      [0xEE, 1, 7, 3, 0xEE] ∧
    ∃ dev, (deviceMachine .shipped).run ⟨Firmware.bootAtZero, 0⟩ rebootedMove = some dev ∧
      (Firmware.systemInit 0 (M45pe.powerUp ⟨dev.firmware.app.m45pe.chip.mem, false,
        fun _ => 0⟩).m45Init).2 = .controllerInit 1 0 := by
  have hfit : ∀ c ∈ [M45peCall.write 8 [1, 2, 3], .read 8 [0, 0], .write 9 [7]], c.Fits := by
    simp [M45peCall.Fits]
  have hround := persistence_round_trip (M45pe.powerUp ⟨fun _ => 0xEE, false, fun _ => 0⟩) hfit
  constructor
  · exact (hround.1.2.1 7 [0, 0, 0, 0, 0] (by simp [M45peCall.Fits])).trans rfl
  · have hrun : ∃ dev, (deviceMachine .shipped).run ⟨Firmware.bootAtZero, 0⟩ rebootedMove =
        some dev ∧ dev.persisted = 1 := ⟨_, rfl, rfl⟩
    obtain ⟨dev, hdev, hpos⟩ := hrun
    refine ⟨dev, hdev, ?_⟩
    rw [hround.2 .shipped dev ⟨_, _, ⟨_, _, _, _, rfl⟩, hdev⟩ false (fun _ => 0) 0, hpos]
    rfl

end Acromegaly
