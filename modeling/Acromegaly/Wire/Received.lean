import Acromegaly.Wire.Direction

/-!
# Which bytes of a write are interpreted

The control service checks that a write is not empty and then reads up to three bytes. A write too
short for its opcode is therefore carried out with whatever lies behind the received bytes
(`interpretsReceived_iff`); every other write is interpreted from the bytes received alone.
-/

namespace Acromegaly

open Found Controller

/-- Two writes of the same received bytes to the same attribute. -/
structure WriteEvt.SameReceived (e e' : WriteEvt) : Prop where
  handle : e'.handle = e.handle
  len : e'.len = e.len
  data : ∀ i < e.len.toNat, e'.data i = e.data i

/-- A handled write is too short for its opcode. -/
def WriteEvt.Truncated (svc : CtrlService) (e : WriteEvt) : Prop :=
  e.handle = svc.valueHandle ∧ e.len > 0 ∧
    (e.data 0 = ctrlCommandSetTargetPos ∧ e.len < 3 ∨ e.data 0 = ctrlCommandReset ∧ e.len < 2)

/-- A write that has nothing to say: to another handle, empty, too short for its opcode, with an
unknown opcode or with an unknown extremum. -/
def WriteEvt.Meaningless (svc : CtrlService) (e : WriteEvt) : Prop :=
  e.handle ≠ svc.valueHandle ∨ e.len = 0 ∨ e.Truncated svc ∨
    (e.data 0 ≠ ctrlCommandForceStop ∧ e.data 0 ≠ ctrlCommandSetTargetPos ∧
      e.data 0 ≠ ctrlCommandReset) ∨
    (e.data 0 = ctrlCommandReset ∧ e.data 1 ≠ ctrlExtremumPosBottom ∧
      e.data 1 ≠ ctrlExtremumPosTop)

/-- The same controller state and the same motor pins. -/
def Controller.SameState (c c' : Controller) : Prop := c'.mState = c.mState ∧ c'.pins = c.pins

/-- At the controller `c`, the write is interpreted from the bytes received: what follows them
makes no difference, and a write that has nothing to say does nothing. -/
def InterpretsReceived (svc : CtrlService) (e : WriteEvt) (c : Controller) : Prop :=
  (∀ e', e.SameReceived e' →
    (bleCtrlServiceOnWrite .shipped svc e c).SameState (bleCtrlServiceOnWrite .shipped svc e' c)) ∧
  (e.Meaningless svc → c.SameState (bleCtrlServiceOnWrite .shipped svc e c))

namespace WriteEvt

variable {svc : CtrlService} {e e' : WriteEvt} {c : Controller}

/-! ## Complete writes -/

/-- A handled write that is not too short has received the bytes its opcode needs. -/
theorem lt_len_of_not_truncated (hh : e.handle = svc.valueHandle ∧ e.len > 0)
    (ht : ¬e.Truncated svc) :
    0 < e.len.toNat ∧ (e.data 0 = ctrlCommandSetTargetPos → 2 < e.len.toNat) ∧
      (e.data 0 = ctrlCommandReset → 1 < e.len.toNat) := by
  have hpos : 0 < e.len.toNat := UInt16.lt_iff_toNat_lt.mp hh.2
  have h3 : (3 : UInt16).toNat = 3 := rfl
  have h2 : (2 : UInt16).toNat = 2 := rfl
  refine ⟨hpos, fun hcode => ?_, fun hcode => ?_⟩
  · by_contra hlen
    refine ht ⟨hh.1, hh.2, .inl ⟨hcode, ?_⟩⟩
    rw [UInt16.lt_iff_toNat_lt, h3]
    omega
  · by_contra hlen
    refine ht ⟨hh.1, hh.2, .inr ⟨hcode, ?_⟩⟩
    rw [UInt16.lt_iff_toNat_lt, h2]
    omega

/-- A write that is not too short amounts to the same command with other bytes behind it. -/
theorem command?_congr (g : Geometry) (h : e.SameReceived e') (ht : ¬e.Truncated svc) :
    e'.command? g svc = e.command? g svc := by
  unfold command?
  rw [h.handle, h.len]
  by_cases hh : e.handle = svc.valueHandle ∧ e.len > 0
  · obtain ⟨h0, hset, hreset⟩ := lt_len_of_not_truncated hh ht
    rw [if_pos hh, if_pos hh, h.data 0 h0]
    split_ifs with h₁ h₂ h₃
    · rfl
    · have hlen := hset h₂
      rw [h.data 1 (by omega), h.data 2 hlen]
    · rw [h.data 1 (hreset h₃)]
    · rfl
  · rw [if_neg hh, if_neg hh]

/-- A write that is not too short and has nothing to say does nothing. -/
theorem onWrite_of_meaningless (g : Geometry) (h : e.Meaningless svc) (ht : ¬e.Truncated svc) :
    bleCtrlServiceOnWrite g svc e c = c := by
  unfold bleCtrlServiceOnWrite
  rcases h with hhandle | hlen | htrunc | ⟨h₁, h₂, h₃⟩ | ⟨hcode, hbottom, htop⟩
  · exact if_neg fun hh => hhandle hh.1
  · refine if_neg fun hh => ?_
    rw [hlen] at hh
    exact absurd hh.2 (by decide)
  · exact absurd htrunc ht
  · rw [if_neg h₁, if_neg h₂, if_neg h₃, ite_self]
  · have h₁ : ctrlCommandReset ≠ ctrlCommandForceStop := by decide
    have h₂ : ctrlCommandReset ≠ ctrlCommandSetTargetPos := by decide
    unfold controllerExtremumPositionSet
    rw [hcode, if_neg h₁, if_neg h₂, if_pos rfl, if_neg hbottom, if_neg htop, ite_self]

/-! ## Truncated writes -/

/-- The write with another byte at one place. -/
def setByte (e : WriteEvt) (i : ℕ) (b : UInt8) : WriteEvt :=
  { e with data := Function.update e.data i b }

theorem sameReceived_setByte {i : ℕ} (h : e.len.toNat ≤ i) (b : UInt8) :
    e.SameReceived (e.setByte i b) := by
  refine ⟨rfl, rfl, fun j hj => ?_⟩
  have hne : j ≠ i := by omega
  exact Function.update_of_ne hne b e.data

/-- Two heights that differ in the high byte only have different tick targets. -/
theorem targetPosOfMm_highByte_ne (lo : UInt8) :
    targetPosOfMm .shipped (int16OfBytes lo 0) ≠ targetPosOfMm .shipped (int16OfBytes lo 1) := by
  have hlo := lo.toNat_lt
  have h₀ : (int16OfBytes lo 0).toInt = lo.toNat := by
    rw [toInt_int16OfBytes]
    exact Int.bmod_eq_of_le (by simp) (by simp; omega)
  have h₁ : (int16OfBytes lo 1).toInt = lo.toNat + 256 := by
    rw [toInt_int16OfBytes]
    exact Int.bmod_eq_of_le (by simp; omega) (by simp; omega)
  intro heq
  have hint := congrArg Int16.toInt heq
  have hneg₀ : 1000 * (lo.toNat : ℤ) - 833738 = -(833738 - 1000 * lo.toNat) := by omega
  have hneg₁ : 1000 * ((lo.toNat : ℤ) + 256) - 833738 = -(577738 - 1000 * lo.toNat) := by omega
  rw [toInt_targetPosOfMm_shipped, toInt_targetPosOfMm_shipped, h₀, h₁, hneg₀, hneg₁, Int.neg_tdiv,
    Int.neg_tdiv, Int.tdiv_eq_ediv_of_nonneg (by omega), Int.tdiv_eq_ediv_of_nonneg (by omega),
    Int.bmod_eq_of_le (by omega) (by omega), Int.bmod_eq_of_le (by omega) (by omega)] at hint
  omega

/-- A truncated set-target write aims at different ticks with different bytes behind it. -/
theorem not_interpretsReceived_of_setTarget (hh : e.handle = svc.valueHandle ∧ e.len > 0)
    (hcode : e.data 0 = ctrlCommandSetTargetPos) (hlen : e.len.toNat ≤ 2) :
    ¬InterpretsReceived svc e c := by
  rintro ⟨hsame, -⟩
  have h₀ := (hsame _ (sameReceived_setByte hlen 0)).1
  have h₁ := (hsame _ (sameReceived_setByte hlen 1)).1
  have hstate := congrArg ControllerState.target (h₀.trans h₁.symm)
  rw [bleCtrlServiceOnWrite_setTargetPos (by exact hh) (by exact hcode),
    bleCtrlServiceOnWrite_setTargetPos (by exact hh) (by exact hcode), setTargetPos_target,
    setTargetPos_target] at hstate
  exact targetPosOfMm_highByte_ne (e.data 1) hstate

/-- A truncated reset write seeks the bottom or the top with different bytes behind it. -/
theorem not_interpretsReceived_of_reset (hh : e.handle = svc.valueHandle ∧ e.len > 0)
    (hcode : e.data 0 = ctrlCommandReset) (hlen : e.len.toNat ≤ 1) :
    ¬InterpretsReceived svc e c := by
  have honWrite : ∀ b : UInt8, bleCtrlServiceOnWrite .shipped svc (e.setByte 1 b) c =
      c.controllerExtremumPositionSet b := by
    intro b
    have h₁ : ctrlCommandReset ≠ ctrlCommandForceStop := by decide
    have h₂ : ctrlCommandReset ≠ ctrlCommandSetTargetPos := by decide
    have hcode' : (e.setByte 1 b).data 0 = ctrlCommandReset := hcode
    have hb : (e.setByte 1 b).data 1 = b := by simp [setByte]
    unfold bleCtrlServiceOnWrite
    rw [if_pos (by exact hh), hcode', if_neg h₁, if_neg h₂, if_pos rfl, hb]
  rintro ⟨hsame, -⟩
  have h₀ := (hsame _ (sameReceived_setByte hlen ctrlExtremumPosBottom)).1
  have h₁ := (hsame _ (sameReceived_setByte hlen ctrlExtremumPosTop)).1
  have hstate := congrArg ControllerState.targetType (h₀.trans h₁.symm)
  rw [honWrite, honWrite] at hstate
  have htop : ctrlExtremumPosTop ≠ ctrlExtremumPosBottom := by decide
  unfold controllerExtremumPositionSet at hstate
  rw [if_pos rfl, if_neg htop, if_pos rfl, setTargetPos_targetType, setTargetPos_targetType]
    at hstate
  exact absurd hstate (by decide)

end WriteEvt

/-- **Which writes are interpreted from the bytes received.** In every controller state, a write's
outcome is independent of what lies behind the received bytes, and a write with nothing to say does
nothing, exactly if the write is not a handled set-target write of less than three bytes or reset
write of less than two. -/
theorem interpretsReceived_iff (svc : CtrlService) (e : WriteEvt) (c : Controller) :
    InterpretsReceived svc e c ↔ ¬e.Truncated svc := by
  constructor
  · rintro h ⟨hhandle, hlen, ⟨hcode, h3⟩ | ⟨hcode, h2⟩⟩
    · have h3 := UInt16.lt_iff_toNat_lt.mp h3
      exact WriteEvt.not_interpretsReceived_of_setTarget ⟨hhandle, hlen⟩ hcode
        (Nat.le_of_lt_succ h3) h
    · have h2 := UInt16.lt_iff_toNat_lt.mp h2
      exact WriteEvt.not_interpretsReceived_of_reset ⟨hhandle, hlen⟩ hcode
        (Nat.le_of_lt_succ h2) h
  · intro ht
    constructor
    · intro e' he'
      rw [bleCtrlServiceOnWrite_eq, bleCtrlServiceOnWrite_eq, WriteEvt.command?_congr .shipped he' ht]
      exact ⟨rfl, rfl⟩
    · intro hm
      rw [WriteEvt.onWrite_of_meaningless .shipped hm ht]
      exact ⟨rfl, rfl⟩

/-- A write of the one byte `0x60` at boot position `0` drives the motor one way or the other. -/
theorem not_forall_interpretsReceived :
    ¬∀ (svc : CtrlService) (c : Controller), controllerMachine.Reachable c →
      ∀ e : WriteEvt, InterpretsReceived svc e c := by
  intro h
  have hsame := (h ⟨0, 7⟩ (Controller.boot 0 1) (Machine.Reachable.init ⟨0, 1, rfl⟩)
    (.ofBytes 7 [0x60])).1
  have hpins := (hsame { WriteEvt.ofBytes 7 [0x60, 0xE8, 0x03] with len := 1 }
    ⟨rfl, rfl, by decide⟩).2
  have hup : (bleCtrlServiceOnWrite .shipped ⟨0, 7⟩
      { WriteEvt.ofBytes 7 [0x60, 0xE8, 0x03] with len := 1 } (Controller.boot 0 1)).pins =
        Pins.driving .up := by decide
  have hdown : (bleCtrlServiceOnWrite .shipped ⟨0, 7⟩ (.ofBytes 7 [0x60])
      (Controller.boot 0 1)).pins = Pins.driving .down := by decide
  rw [hup, hdown] at hpins
  exact absurd hpins (by decide)

end Acromegaly
