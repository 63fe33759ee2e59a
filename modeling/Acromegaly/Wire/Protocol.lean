import Acromegaly.Found.Bytes
import Acromegaly.Found.Codec
import Acromegaly.Motion.Desk
import Acromegaly.Motion.Projection
import Acromegaly.Publish.Mailbox
import Acromegaly.Wire.Received

/-!
# The protocol

What a client and the firmware say to each other, as two formats over bytes. A `Request` is an
opcode and the operand this opcode takes; a `Report` is a state with its heights in mm, in nine
bytes. Both are prefix codes (`Found.Codec`), and the services speak them: the control service
carries out the request that begins a write and ignores a write that no request begins
(`write_parses`), and the status service sends a report and nothing else (`encodeState_eq_encode`).

A write too short for its opcode is the exception (`Wire.Received`): no request begins it, and the
control service takes it for one.
-/

namespace Acromegaly

open Found

/-- A 16-bit number, low byte first. -/
def int16Codec : Codec UInt8 Int16 :=
  (Codec.symbol.pair Codec.symbol).xmap (fun bytes => some (int16OfBytes bytes.1 bytes.2))
    (fun x => (lowByte x, highByte x)) (by
      rintro ⟨lo, hi⟩ x
      constructor
      · intro h
        obtain ⟨hlo, hhi⟩ := bytes_int16OfBytes lo hi
        rw [← Option.some.inj h, hlo, hhi]
      · intro h
        obtain ⟨rfl, rfl⟩ := Prod.mk.inj h
        exact congrArg some (int16OfBytes_bytes x))

/-! ## Requests -/

/-- The first byte of a request. -/
inductive Opcode
  | forceStop
  | setTargetPos
  | reset
  deriving DecidableEq, Repr

def Opcode.toByte : Opcode → UInt8
  | .forceStop => ctrlCommandForceStop
  | .setTargetPos => ctrlCommandSetTargetPos
  | .reset => ctrlCommandReset

def Opcode.codec : Codec UInt8 Opcode :=
  .oneOf [.forceStop, .setTargetPos, .reset] Opcode.toByte (by intro op; cases op <;> rfl)

/-- An end of the desk's way. -/
inductive Extremum
  | bottom
  | top
  deriving DecidableEq, Repr

def Extremum.toByte : Extremum → UInt8
  | .bottom => Controller.ctrlExtremumPosBottom
  | .top => Controller.ctrlExtremumPosTop

def Extremum.codec : Codec UInt8 Extremum :=
  .oneOf [.bottom, .top] Extremum.toByte (by intro which; cases which <;> rfl)

/-- What follows the first byte: nothing, a height in mm, an end. -/
abbrev Opcode.Operand : Opcode → Type
  | .forceStop => Unit
  | .setTargetPos => Int16
  | .reset => Extremum

def Opcode.operand : (op : Opcode) → Codec UInt8 op.Operand
  | .forceStop => .empty
  | .setTargetPos => int16Codec
  | .reset => Extremum.codec

/-- What a client can ask for. -/
abbrev Request := (op : Opcode) × op.Operand

namespace Request

/-- The format of requests. -/
def codec : Codec UInt8 Request := Opcode.codec.bind Opcode.operand

/-- What it asks the controller for. -/
def command (g : Geometry) : Request → Command
  | ⟨.forceStop, _⟩ => .stop
  | ⟨.setTargetPos, targetMm⟩ => .target (targetPosOfMm g targetMm)
  | ⟨.reset, which⟩ => .extremum (Extremum.toByte which)

theorem encode_forceStop : codec.encode ⟨.forceStop, ()⟩ = [ctrlCommandForceStop] := rfl

theorem encode_setTargetPos (targetMm : Int16) :
    codec.encode ⟨.setTargetPos, targetMm⟩ =
      [ctrlCommandSetTargetPos, lowByte targetMm, highByte targetMm] := rfl

theorem encode_reset (which : Extremum) :
    codec.encode ⟨.reset, which⟩ = [ctrlCommandReset, which.toByte] := rfl

end Request

namespace WriteEvt

/-- The bytes received. -/
def received (e : WriteEvt) : List UInt8 := load e.data 0 e.len.toNat

/-- The request that begins the bytes received, if they are for the control characteristic. -/
def request? (svc : CtrlService) (e : WriteEvt) : Option Request :=
  if e.handle = svc.valueHandle then (Request.codec.parse e.received).map Prod.fst else none

variable {g : Geometry} {svc : CtrlService} {e : WriteEvt} {r : Request}

theorem request?_eq_some : e.request? svc = some r ↔
    e.handle = svc.valueHandle ∧ ∃ rest, e.received = Request.codec.encode r ++ rest := by
  unfold request?
  rw [Option.ite_none_right_eq_some, Option.map_eq_some_iff]
  refine and_congr_right fun _ => ?_
  constructor
  · rintro ⟨⟨r', rest⟩, hparse, rfl⟩
    exact ⟨rest, Request.codec.parse_iff.mp hparse⟩
  · rintro ⟨rest, hbytes⟩
    exact ⟨(r, rest), Request.codec.parse_iff.mpr hbytes, rfl⟩

/-- There is none if the write is for another characteristic or no request begins it. -/
theorem request?_eq_none : e.request? svc = none ↔
    (e.handle = svc.valueHandle → ∀ r rest, e.received ≠ Request.codec.encode r ++ rest) := by
  unfold request?
  rw [ite_eq_right_iff, Option.map_eq_none_iff, Codec.parse_eq_none_iff]

/-- A request is carried out as its command. -/
theorem command?_of_request? (h : e.request? svc = some r) :
    e.command? g svc = some (r.command g) := by
  obtain ⟨hhandle, rest, hbytes⟩ := request?_eq_some.mp h
  have hlen : ∀ n, e.len.toNat = n + 1 → e.len > 0 := by
    intro n hn
    apply UInt16.lt_iff_toNat_lt.mpr
    rw [hn]
    exact Nat.succ_pos n
  have hset : ctrlCommandSetTargetPos ≠ ctrlCommandForceStop := by decide
  have hreset : ctrlCommandReset ≠ ctrlCommandForceStop ∧
      ctrlCommandReset ≠ ctrlCommandSetTargetPos := by decide
  unfold command?
  obtain ⟨op, operand⟩ := r
  cases op with
  | forceStop =>
      rw [Request.encode_forceStop] at hbytes
      obtain ⟨n, hn, h₀, -⟩ := load_eq_cons.mp hbytes
      rw [if_pos ⟨hhandle, hlen n hn⟩, if_pos h₀]
      rfl
  | setTargetPos =>
      rw [Request.encode_setTargetPos] at hbytes
      obtain ⟨n, hn, h₀, hbytes₁⟩ := load_eq_cons.mp hbytes
      obtain ⟨m, -, h₁, hbytes₂⟩ := load_eq_cons.mp hbytes₁
      obtain ⟨-, -, h₂, -⟩ := load_eq_cons.mp hbytes₂
      rw [if_pos ⟨hhandle, hlen n hn⟩, h₀, if_neg hset, if_pos rfl, h₁, h₂, int16OfBytes_bytes]
      rfl
  | reset =>
      rw [Request.encode_reset] at hbytes
      obtain ⟨n, hn, h₀, hbytes₁⟩ := load_eq_cons.mp hbytes
      obtain ⟨m, -, h₁, -⟩ := load_eq_cons.mp hbytes₁
      rw [if_pos ⟨hhandle, hlen n hn⟩, h₀, if_neg hreset.1, if_neg hreset.2, if_pos rfl, h₁]
      rfl

/-- A write that is not too short and that no request begins amounts at most to a command that sets
nothing. -/
theorem sets_of_request?_eq_none (ht : ¬e.Truncated svc) (h : e.request? svc = none) {cmd : Command}
    (hcmd : e.command? g svc = some cmd) : cmd.sets = none := by
  unfold command? at hcmd
  rw [Option.ite_none_right_eq_some] at hcmd
  obtain ⟨hh, hcmd⟩ := hcmd
  have hno := request?_eq_none.mp h hh.1
  obtain ⟨hpos, hset, hreset⟩ := lt_len_of_not_truncated hh ht
  split_ifs at hcmd with h₀ h₀ h₀
  · obtain ⟨n, hn⟩ := Nat.exists_eq_add_of_lt hpos
    exact absurd (load_eq_cons.mpr ⟨n, by omega, h₀, rfl⟩) (hno ⟨.forceStop, ()⟩ (load e.data 1 n))
  · obtain ⟨n, hn⟩ := Nat.exists_eq_add_of_lt (hset h₀)
    obtain ⟨hlo, hhi⟩ := bytes_int16OfBytes (e.data 1) (e.data 2)
    refine absurd ?_ (hno ⟨.setTargetPos, int16OfBytes (e.data 1) (e.data 2)⟩ (load e.data 3 n))
    rw [Request.encode_setTargetPos, hlo, hhi]
    exact load_eq_cons.mpr ⟨n + 2, by omega, h₀, load_eq_cons.mpr ⟨n + 1, rfl, rfl,
      load_eq_cons.mpr ⟨n, rfl, rfl, rfl⟩⟩⟩
  · obtain ⟨n, hn⟩ := Nat.exists_eq_add_of_lt (hreset h₀)
    have hwhich : ∀ which : Extremum, e.data 1 ≠ which.toByte := by
      intro which h₁
      refine hno ⟨.reset, which⟩ (load e.data 2 n) ?_
      exact load_eq_cons.mpr ⟨n + 1, by omega, h₀, load_eq_cons.mpr ⟨n, rfl, h₁, rfl⟩⟩
    rw [← Option.some.inj hcmd]
    show (if e.data 1 = Controller.ctrlExtremumPosBottom then _ else
      if e.data 1 = Controller.ctrlExtremumPosTop then _ else _) = _
    have hbottom : e.data 1 ≠ Controller.ctrlExtremumPosBottom := hwhich .bottom
    have htop : e.data 1 ≠ Controller.ctrlExtremumPosTop := hwhich .top
    rw [if_neg hbottom, if_neg htop]

theorem onWrite_of_request? (h : e.request? svc = some r) (c : Controller) :
    bleCtrlServiceOnWrite g svc e c = c.command (r.command g) := by
  rw [bleCtrlServiceOnWrite_eq, command?_of_request? h]

theorem onWrite_of_request?_eq_none (ht : ¬e.Truncated svc) (h : e.request? svc = none)
    (c : Controller) : bleCtrlServiceOnWrite g svc e c = c := by
  rw [bleCtrlServiceOnWrite_eq]
  cases hcmd : e.command? g svc with
  | none => rfl
  | some cmd => exact Controller.command_of_sets_none (sets_of_request?_eq_none ht h hcmd) c

/-- **The control service parses.** In every controller state: a write on the control characteristic
that begins with a request has this request carried out, whatever follows it; and unless it is too
short for its opcode, a write that begins with no request, or is to another handle, does nothing. -/
theorem write_parses (g : Geometry) (svc : CtrlService) (e : WriteEvt) (c : Controller) :
    (∀ r rest, e.handle = svc.valueHandle → e.received = Request.codec.encode r ++ rest →
      bleCtrlServiceOnWrite g svc e c = c.command (r.command g)) ∧
    (¬e.Truncated svc →
      (e.handle = svc.valueHandle → ∀ r rest, e.received ≠ Request.codec.encode r ++ rest) →
      bleCtrlServiceOnWrite g svc e c = c) := by
  constructor
  · intro r rest hhandle hbytes
    exact onWrite_of_request? (request?_eq_some.mpr ⟨hhandle, rest, hbytes⟩) c
  · intro ht hno
    exact onWrite_of_request?_eq_none ht (request?_eq_none.mpr hno) c

/-- A request for 840 mm with a byte after it is carried out, and an unknown opcode is ignored. -/
theorem write_parses_trailing :
    bleCtrlServiceOnWrite .shipped ⟨5, 7⟩ (.ofBytes 7 [0x60, 0x48, 0x03, 0xFF])
        (.boot 0 0) = (Controller.boot 0 0).command (.target 11) ∧
      bleCtrlServiceOnWrite .shipped ⟨5, 7⟩ (.ofBytes 7 [0x42]) (.boot 0 0) = .boot 0 0 := by
  constructor
  · exact (write_parses .shipped ⟨5, 7⟩ _ _).1 ⟨.setTargetPos, 840⟩ [0xFF] rfl (by decide)
  · refine (write_parses .shipped ⟨5, 7⟩ _ _).2 ?_ ?_
    · rintro ⟨-, -, htrunc⟩
      revert htrunc
      decide
    · intro _
      exact Request.codec.parse_eq_none_iff.mp (by decide)

end WriteEvt

/-! ## Reports -/

/-- What a notification says. -/
structure Report where
  positionMm : Int16
  targetMm : Int16
  targetType : TargetType
  movement : MoveDirection
  deriving DecidableEq, Repr

def TargetType.codec : Codec UInt8 TargetType :=
  .oneOf [.none, .exact, .extremumMin, .extremumMax] TargetType.toByte
    (by intro ty; cases ty <;> rfl)

def MoveDirection.codec : Codec UInt8 MoveDirection :=
  .oneOf [.up, .down, .none] MoveDirection.toByte (by intro d; cases d <;> rfl)

/-- The format of reports: two heights, a target type and a direction, and three bytes that mean
nothing. -/
def Report.codec : Codec UInt8 Report :=
  (int16Codec.pair (int16Codec.pair (TargetType.codec.pair
    (MoveDirection.codec.pair (.literal (List.replicate (statusCharLength - 6) 0)))))).xmap
    (fun x => some ⟨x.1, x.2.1, x.2.2.1, x.2.2.2.1⟩)
    (fun r => (r.positionMm, r.targetMm, r.targetType, r.movement, ()))
    (by
      rintro ⟨positionMm, targetMm, ty, d, ⟨⟩⟩ r
      constructor
      · rintro ⟨⟩
        rfl
      · intro h
        cases h
        rfl)

/-- The state, with its heights in mm. -/
def ControllerState.report (g : Geometry) (st : ControllerState) : Report where
  positionMm := mmPosition g st.position
  targetMm := mmTarget g st.target
  targetType := st.targetType
  movement := st.movement

/-- A notification is the report of a state. -/
theorem encodeState_eq_encode (g : Geometry) (st : ControllerState) :
    encodeState g st = Report.codec.encode (st.report g) := rfl

/-- It is read back as that report, to the last byte. -/
theorem parse_encodeState (g : Geometry) (st : ControllerState) :
    Report.codec.parse (encodeState g st) = some (st.report g, []) := by
  rw [Report.codec.parse_iff, List.append_nil]
  exact encodeState_eq_encode g st

/-! ## The desk that is served -/

/-- What an event of the firmware asks of the desk, if anything, when `ctrlHandle` is the handle of
the control characteristic: a tick, or the request that begins a write. -/
def FirmwareEvent.served (g : Geometry) (ctrlHandle : UInt16) : FirmwareEvent → Option CtrlEvent
  | .tick inPinState => some (.tick inPinState)
  | .ble (.write e) =>
      (e.request? ⟨bleConnHandleInvalid, ctrlHandle⟩).map fun r => .command (r.command g)
  | _ => none

/-- No write among the events is too short for its opcode. -/
def Complete (ctrlHandle : UInt16) (es : List FirmwareEvent) : Prop :=
  ∀ e, .ble (.write e) ∈ es → ¬e.Truncated ⟨bleConnHandleInvalid, ctrlHandle⟩

theorem Complete.tail {ctrlHandle : UInt16} {e : FirmwareEvent} {es : List FirmwareEvent}
    (h : Complete ctrlHandle (e :: es)) : Complete ctrlHandle es :=
  fun we hwe => h we (List.mem_cons_of_mem e hwe)

/-- To the desk it makes no difference that the control service does not parse. -/
theorem served_effect {g : Geometry} {ctrlHandle : UInt16} {es : List FirmwareEvent}
    (h : Complete ctrlHandle es) : ∀ e ∈ es, ∀ k : Desk,
      (e.ctrlEvent g ctrlHandle).elim (some k) (deskMachine.step k) =
        (e.served g ctrlHandle).elim (some k) (deskMachine.step k) := by
  intro e he k
  cases e with
  | mainStep => rfl
  | tick r => rfl
  | ble evt =>
      cases evt with
      | connected connHandle => rfl
      | disconnected => rfl
      | other => rfl
      | write we =>
          show ((we.command? g _).map CtrlEvent.command).elim _ _ =
            ((we.request? _).map fun r => CtrlEvent.command (r.command g)).elim _ _
          cases hr : we.request? ⟨bleConnHandleInvalid, ctrlHandle⟩ with
          | some r =>
              rw [WriteEvt.command?_of_request? hr]
              rfl
          | none =>
              cases hcmd : we.command? g ⟨bleConnHandleInvalid, ctrlHandle⟩ with
              | none => rfl
              | some cmd =>
                  have hsets := WriteEvt.sets_of_request?_eq_none (h we he) hr hcmd
                  show some (k.command cmd) = some k
                  unfold Desk.command
                  rw [hsets]

namespace Firmware

/-- **The desk is served.** From every flash content, for every list of events with no write too
short for its opcode: the firmware can run through them exactly if a desk, started at the stored
position, can run through the requests and ticks among them, and then the controller shows what this
desk shows: its state, the pins and the timer. -/
theorem serves (g : Geometry) (chip : M45peChip) (inPinState : UInt32)
    (ctrlHandle statusHandle : UInt16) {es : List FirmwareEvent} (h : Complete ctrlHandle es) :
    ((firmwareMachine g).run (boot chip inPinState ctrlHandle statusHandle) es).map
        (fun w => w.controller.observed) =
      (deskMachine.run (.start chip.position inPinState)
        (es.filterMap (FirmwareEvent.served g ctrlHandle))).map Desk.observed := by
  have hhandle : (controllerShare g ctrlHandle).inv
      (boot chip inPinState ctrlHandle statusHandle) := by
    show (boot chip inPinState ctrlHandle statusHandle).mCtrlService.valueHandle = ctrlHandle
    rfl
  have hpart : ((firmwareMachine g).run (boot chip inPinState ctrlHandle statusHandle) es).map
      controller = controllerMachine.run (boot chip inPinState ctrlHandle statusHandle).controller
        (es.filterMap (FirmwareEvent.ctrlEvent g ctrlHandle)) :=
    (controllerShare g ctrlHandle).map_run hhandle es
  have hdesk := Controller.represented.map_run (fun _ _ h => h.observed_eq)
    (Controller.represents_start chip.position inPinState)
    (es.filterMap (FirmwareEvent.ctrlEvent g ctrlHandle))
  have hread : deskMachine.run (.start chip.position inPinState)
      (es.filterMap (FirmwareEvent.ctrlEvent g ctrlHandle)) =
        deskMachine.run (.start chip.position inPinState)
          (es.filterMap (FirmwareEvent.served g ctrlHandle)) :=
    Machine.run_filterMap_congr (served_effect h) _
  rw [← hread, ← hdesk, ← boot_controller chip inPinState ctrlHandle statusHandle, ← hpart,
    Option.map_map]
  rfl

/-- A client asks for 840 mm with a byte too many, and for an end that does not exist; somebody writes
to another characteristic. -/
def padded : List FirmwareEvent :=
  [.ble (.connected 5), .ble (.write (.ofBytes 7 [0x60, 0x48, 0x03, 0xFF])), .tick 1, .mainStep,
    .ble (.write (.ofBytes 7 [0x88, 0x00])), .ble (.write (.ofBytes 9 [0xAA])), .tick 1]

theorem padded_complete : Complete 7 padded := by
  intro e he
  simp only [padded, List.mem_cons, FirmwareEvent.ble.injEq, BleEvt.write.injEq, reduceCtorEq,
    List.not_mem_nil, false_or, or_false] at he
  rintro ⟨hhandle, -, htrunc⟩
  rcases he with rfl | rfl | rfl
  · revert htrunc
    decide
  · revert htrunc
    decide
  · exact absurd hhandle (by decide)

theorem padded_served : padded.filterMap (FirmwareEvent.served .shipped 7) =
    [.command (.target 11), .tick 1, .tick 1] := by decide

theorem serves_padded :
    ((firmwareMachine .shipped).run bootAtZero padded).map (fun w => w.controller.observed) =
      (deskMachine.run (.start 0 0) [.command (.target 11), .tick 1, .tick 1]).map
        Desk.observed := by
  have h := serves .shipped ⟨fun _ => 0, false, fun _ => 0⟩ 0 7 14 padded_complete
  rw [padded_served] at h
  exact h

end Firmware

end Acromegaly
