import Acromegaly.Motion.Safety
import Acromegaly.Wire.Heights

/-!
# Which way a set-target write sends the desk

The README documents the height of a set-target write as an unsigned 16-bit number of mm. The
code reads it as a signed one, scales it, and narrows the tick value to `int16_t`. Both
reinterpretations wrap, at 32768 mm and at 18037 mm with the shipped geometry
(`toInt_targetPosOfMm_shipped` and the four windows below it). Up to 18036 mm the tick stored is
the nearest one, the desk moves the right way from every position, and heights keep their order;
from 18037 mm on there is always a position from which it moves the wrong way.
-/

namespace Acromegaly

open Found Controller

/-- The height bytes of a set-target write as the README documents them: an unsigned
little-endian number. -/
def WriteEvt.documentedMm (e : WriteEvt) : UInt16 :=
  UInt16.ofNat ((e.data 1).toNat + 256 * (e.data 2).toNat)

/-- The complete set-target write of a documented height. -/
def WriteEvt.setTarget (handle : UInt16) (m : UInt16) : WriteEvt :=
  .ofBytes handle [ctrlCommandSetTargetPos, UInt8.ofNat (m.toNat % 256), UInt8.ofNat (m.toNat / 256)]

theorem WriteEvt.setTarget_setsTarget (svc : CtrlService) (m : UInt16) :
    (WriteEvt.setTarget svc.valueHandle m).SetsTarget svc := by
  have hlen : (3 : UInt16) ≤ UInt16.ofNat 3 := by decide
  exact ⟨rfl, hlen, rfl⟩

theorem WriteEvt.documentedMm_setTarget (handle m : UInt16) :
    (WriteEvt.setTarget handle m).documentedMm = m := by
  have hlt := m.toNat_lt
  show UInt16.ofNat ((UInt8.ofNat (m.toNat % 256)).toNat +
    256 * (UInt8.ofNat (m.toNat / 256)).toNat) = m
  rw [UInt8.toNat_ofNat', UInt8.toNat_ofNat']
  have hsum : m.toNat % 256 % 2 ^ 8 + 256 * (m.toNat / 256 % 2 ^ 8) = m.toNat := by omega
  rw [hsum, UInt16.ofNat_toNat]

theorem WriteEvt.heightMm_eq (e : WriteEvt) : e.heightMm = e.documentedMm.toInt16 := rfl

/-! ## The tick stored for a documented height -/

/-- The tick stored for a signed height, with the shipped geometry. -/
theorem toInt_targetPosOfMm_shipped (mm : Int16) :
    (targetPosOfMm .shipped mm).toInt = ((1000 * mm.toInt - 833738).tdiv 525).bmod (2 ^ 16) := by
  have hlow := mm.le_toInt
  have hhigh := mm.toInt_lt
  have hM : Geometry.shipped.tickToHeightMulti.toInt = 525 := rfl
  have hB : Geometry.shipped.baseHeight.toInt = 834000 := rfl
  unfold targetPosOfMm
  rw [Int32.toInt_toInt16, toInt_roundedDiv_height (by decide) (by rw [hB]; constructor <;> omega)
    (by rw [hM, hB]; constructor <;> omega), hM, hB]
  have harg : mm.toInt * 1000 - 834000 + 525 / 2 = 1000 * mm.toInt - 833738 := by omega
  rw [harg]

/-- The signed reading of a documented height. -/
theorem toInt_toInt16 (m : UInt16) :
    m.toInt16.toInt = if m.toNat < 32768 then (m.toNat : ℤ) else m.toNat - 65536 := by
  have hlt := m.toNat_lt
  have h : m.toInt16.toInt = (m.toNat : ℤ).bmod Int16.size := by
    rw [← Int16.toInt_ofNat', ← UInt16.toInt16_ofNat', UInt16.ofNat_toNat]
  rw [h, Int.bmod_def]
  unfold Int16.size
  split_ifs <;> omega

/-- The tick stored for a documented height, as an integer. -/
def storedTick (m : UInt16) : ℤ := (targetPosOfMm .shipped m.toInt16).toInt

section windows

variable {m : UInt16}

theorem storedTick_of_fits (hbase : 834000 ≤ 1000 * m.toNat) (h : m.toNat ≤ 18036) :
    storedTick m = (1000 * m.toNat - 833738) / 525 := by
  unfold storedTick
  rw [toInt_targetPosOfMm_shipped, toInt_toInt16, if_pos (by omega),
    Int.tdiv_eq_ediv_of_nonneg (by omega)]
  exact Int.bmod_eq_of_le (by omega) (by omega)

/-- The tick value leaves `int16_t` and wraps to a negative number. -/
theorem storedTick_of_wraps (h₁ : 18037 ≤ m.toNat) (h₂ : m.toNat < 32768) :
    storedTick m = (1000 * m.toNat - 833738) / 525 - 65536 := by
  unfold storedTick
  rw [toInt_targetPosOfMm_shipped, toInt_toInt16, if_pos h₂,
    Int.tdiv_eq_ediv_of_nonneg (by omega), Int.bmod_def]
  split_ifs <;> omega

/-- The truncated quotient of a height read as negative. -/
theorem tdiv_of_signed (h : 32768 ≤ m.toNat) :
    (1000 * ((m.toNat : ℤ) - 65536) - 833738).tdiv 525 =
      -((833738 + 1000 * (65536 - (m.toNat : ℤ))) / 525) := by
  have hlt := m.toNat_lt
  have hneg : 1000 * ((m.toNat : ℤ) - 65536) - 833738 =
      -(833738 + 1000 * (65536 - (m.toNat : ℤ))) := by omega
  rw [hneg, Int.neg_tdiv, Int.tdiv_eq_ediv_of_nonneg (by omega)]

/-- The height is read as negative, and its tick value wraps to a positive number. -/
theorem storedTick_of_signed_wraps (h₁ : 32768 ≤ m.toNat) (h₂ : m.toNat ≤ 49166) :
    storedTick m = 65536 - (833738 + 1000 * (65536 - (m.toNat : ℤ))) / 525 := by
  unfold storedTick
  rw [toInt_targetPosOfMm_shipped, toInt_toInt16, if_neg (by omega), tdiv_of_signed h₁,
    Int.bmod_def]
  split_ifs <;> omega

/-- The height is read as negative, and so is its tick value. -/
theorem storedTick_of_signed (h₁ : 49167 ≤ m.toNat) :
    storedTick m = -((833738 + 1000 * (65536 - (m.toNat : ℤ))) / 525) := by
  have hlt := m.toNat_lt
  unfold storedTick
  rw [toInt_targetPosOfMm_shipped, toInt_toInt16, if_neg (by omega), tdiv_of_signed (by omega)]
  exact Int.bmod_eq_of_le (by omega) (by omega)

end windows

/-! ## Direction -/

/-- The motor is recorded as moving in a direction and its pins agree. -/
def Controller.Driven (c : Controller) (d : MoveDirection) : Prop :=
  c.mState.movement = d ∧ c.pins = Pins.driving d

/-- `set_target_pos` drives in the direction the target lies in, from any state. -/
theorem Controller.setTargetPos_driven (c : Controller) (t : Int16) (ty : TargetType)
    (d : MoveDirection) : (c.setTargetPos t ty).Driven d ↔ aim t c.mState.position = d := by
  have hpins : (c.setTargetPos t ty).pins = Pins.driving (aim t c.mState.position) := by
    rw [setTargetPos_eq, setMovementDir_eq]
    unfold controllerCallCb
    split_ifs <;> rfl
  have hmove : (c.setTargetPos t ty).mState.movement = aim t c.mState.position := by
    rw [setTargetPos_eq, setMovementDir_eq]
    unfold controllerCallCb
    split_ifs <;> rfl
  unfold Driven
  rw [hpins, hmove]
  constructor
  · exact fun h => h.1
  · rintro rfl
    exact ⟨rfl, rfl⟩

/-- A set-target write of `m` mm at position `p` has left the motor driven towards the height: up
if the height is at least a tick above, down if it is at least a tick below. -/
def MovesRightWay (m : UInt16) (p : Int16) (c : Controller) : Prop :=
  (525 * p.toInt + 834000 ≤ 1000 * m.toNat - 525 → c.Driven .up) ∧
    (525 * p.toInt + 834000 ≥ 1000 * m.toNat + 525 → c.Driven .down)

/-- The position `p` lies below the tick that a height `m` beyond 18036 mm wraps to, window by
window. -/
def BelowWrapped (p m : ℤ) : Prop :=
  (18037 ≤ m ∧ m ≤ 32767 ∧ 525 * (p + 65537) ≤ 1000 * m - 833738) ∨
    (32768 ≤ m ∧ m ≤ 49166 ∧ 525 * (p - 65536) < 1000 * (m - 65536) - 833738) ∨
    (49167 ≤ m ∧ 525 * p < 1000 * (m - 65536) - 833738)

theorem storedTick_ne_neg_one {m : UInt16} (hbase : 834000 ≤ 1000 * m.toNat) :
    storedTick m ≠ -1 := by
  have hlt := m.toNat_lt
  by_cases h₁ : m.toNat ≤ 18036
  · rw [storedTick_of_fits hbase h₁]; omega
  by_cases h₂ : m.toNat < 32768
  · rw [storedTick_of_wraps (by omega) h₂]; omega
  by_cases h₃ : m.toNat ≤ 49166
  · rw [storedTick_of_signed_wraps (by omega) h₃]; omega
  · rw [storedTick_of_signed (by omega)]; omega

theorem lt_storedTick_iff {m : UInt16} (h : 18037 ≤ m.toNat) (p : ℤ) :
    p < storedTick m ↔ BelowWrapped p m.toNat := by
  unfold BelowWrapped
  by_cases h₂ : m.toNat < 32768
  · rw [storedTick_of_wraps h h₂]; omega
  by_cases h₃ : m.toNat ≤ 49166
  · rw [storedTick_of_signed_wraps (by omega) h₃]; omega
  · rw [storedTick_of_signed (by omega)]; omega

/-- What a set-target write of a documented height selects, over the integers. -/
theorem aim_storedTick {m : UInt16} (hbase : 834000 ≤ 1000 * m.toNat) (p : Int16) :
    (aim (targetPosOfMm .shipped m.toInt16) p = .up ↔ p.toInt < storedTick m) ∧
      (aim (targetPosOfMm .shipped m.toInt16) p = .down ↔ storedTick m < p.toInt) := by
  have hnil : targetPosOfMm .shipped m.toInt16 ≠ nilPosition := by
    intro h
    exact storedTick_ne_neg_one hbase (congrArg Int16.toInt h)
  rw [aim_eq_up, aim_eq_down, Int16.lt_iff_toInt_lt, Int16.lt_iff_toInt_lt]
  exact ⟨and_iff_right hnil, and_iff_right hnil⟩

/-- Up to 18036 mm the tick stored is close enough to the height to choose the right way from
every position; beyond, the desk only ever has to move up, and does so from below the wrapped
tick. -/
theorem movesRightWay_iff {m : UInt16} (hbase : 834000 ≤ 1000 * m.toNat) (p : Int16)
    {c : Controller} (hup : c.Driven .up ↔ p.toInt < storedTick m)
    (hdown : c.Driven .down ↔ storedTick m < p.toInt) :
    MovesRightWay m p c ↔
      m.toNat ≤ 18036 ∨ (m.toNat = 18037 ∧ p.toInt = 32767) ∨ BelowWrapped p.toInt m.toNat := by
  have hlow := p.le_toInt
  have hhigh := p.toInt_lt
  unfold MovesRightWay
  rw [hup, hdown]
  by_cases hfit : m.toNat ≤ 18036
  · rw [storedTick_of_fits hbase hfit]
    omega
  · rw [lt_storedTick_iff (by omega)]
    constructor
    · rintro ⟨h, -⟩
      by_cases htop : m.toNat = 18037 ∧ p.toInt = 32767
      · exact .inr (.inl htop)
      · exact .inr (.inr (h (by omega)))
    · rintro (h | ⟨h₁, h₂⟩ | h)
      · exact absurd h hfit
      · exact ⟨by omega, by omega⟩
      · exact ⟨fun _ => h, by omega⟩

/-- **Which way a set-target write sends the desk**, with the shipped geometry.

For a height `m` at or above the base height: every reachable state sends the desk the right way
and every lower height stores a lower or equal tick exactly if `m` is at most 18036 mm. State by
state: beyond 18036 mm the direction is right only from a position below the tick that the height
wraps to (and from position 32767 for 18037 mm, which is less than a tick away). -/
theorem setTarget_right_way_iff (m : UInt16) (hbase : 834000 ≤ 1000 * m.toNat) :
    (((∀ c, controllerMachine.Reachable c → ∀ (svc : CtrlService) (e : WriteEvt),
          e.SetsTarget svc → e.documentedMm = m →
          MovesRightWay m c.mState.position (bleCtrlServiceOnWrite .shipped svc e c)) ∧
        (∀ a : UInt16, 834000 ≤ 1000 * a.toNat → a ≤ m →
          ∀ (svc : CtrlService) (e₁ e₂ : WriteEvt), e₁.SetsTarget svc → e₁.documentedMm = a →
          e₂.SetsTarget svc → e₂.documentedMm = m → ∀ c₁ c₂ : Controller,
            (bleCtrlServiceOnWrite .shipped svc e₁ c₁).mState.target ≤
              (bleCtrlServiceOnWrite .shipped svc e₂ c₂).mState.target)) ↔
      m.toNat ≤ 18036) ∧
    ∀ c, controllerMachine.Reachable c → ∀ (svc : CtrlService) (e : WriteEvt),
      e.SetsTarget svc → e.documentedMm = m →
      (MovesRightWay m c.mState.position (bleCtrlServiceOnWrite .shipped svc e c) ↔
        m.toNat ≤ 18036 ∨ (m.toNat = 18037 ∧ c.mState.position.toInt = 32767) ∨
          BelowWrapped c.mState.position.toInt m.toNat) := by
  have hstate : ∀ (c : Controller) (svc : CtrlService) (e : WriteEvt),
      e.SetsTarget svc → e.documentedMm = m →
      (MovesRightWay m c.mState.position (bleCtrlServiceOnWrite .shipped svc e c) ↔
        m.toNat ≤ 18036 ∨ (m.toNat = 18037 ∧ c.mState.position.toInt = 32767) ∨
          BelowWrapped c.mState.position.toInt m.toNat) := by
    intro c svc e he hm
    obtain ⟨hup, hdown⟩ := aim_storedTick hbase c.mState.position
    rw [bleCtrlServiceOnWrite_setsTarget he, e.heightMm_eq, hm]
    apply movesRightWay_iff hbase
    · rw [setTargetPos_driven, hup]
    · rw [setTargetPos_driven, hdown]
  refine ⟨⟨?_, ?_⟩, fun c _ => hstate c⟩
  · rintro ⟨hdir, -⟩
    have hboot : ∀ p : Int16, m.toNat ≤ 18036 ∨ (m.toNat = 18037 ∧ p.toInt = 32767) ∨
        BelowWrapped p.toInt m.toNat := by
      intro p
      have he := WriteEvt.setTarget_setsTarget ⟨0, 0⟩ m
      have hm := WriteEvt.documentedMm_setTarget 0 m
      have h := hdir (boot p 0) (Machine.Reachable.init ⟨p, 0, rfl⟩) ⟨0, 0⟩ _ he hm
      rw [hstate _ _ _ he hm, boot_mState] at h
      exact h
    -- from the very top no wrapped tick lies ahead, except for 18037 mm, which tick 0 refutes
    have htop := hboot 32767
    have hzero := hboot 0
    have h32767 : (32767 : Int16).toInt = 32767 := rfl
    rw [h32767] at htop
    rw [Int16.toInt_zero] at hzero
    have hlt := m.toNat_lt
    unfold BelowWrapped at htop hzero
    omega
  · intro hfit
    refine ⟨fun c _ svc e he hm => (hstate c svc e he hm).mpr (.inl hfit), ?_⟩
    intro a ha hle svc e₁ e₂ he₁ ha₁ he₂ hm₂ c₁ c₂
    have hnat := UInt16.le_iff_toNat_le.mp hle
    have h₁ := storedTick_of_fits ha (by omega)
    have h₂ := storedTick_of_fits hbase hfit
    rw [bleCtrlServiceOnWrite_setsTarget he₁, bleCtrlServiceOnWrite_setsTarget he₂,
      setTargetPos_target, setTargetPos_target, e₁.heightMm_eq, e₂.heightMm_eq, ha₁, hm₂,
      Int16.le_iff_toInt_le]
    show storedTick a ≤ storedTick m
    rw [h₁, h₂]
    exact Int.ediv_le_ediv (by decide) (by omega)

/-- A height within the range: a write of 1000 mm at boot position 0 goes the right way. -/
theorem setTarget_right_way_iff_1000 :
    MovesRightWay 1000 0
      (bleCtrlServiceOnWrite .shipped ⟨0, 7⟩ (.setTarget 7 1000) (Controller.boot 0 1)) :=
  ((setTarget_right_way_iff 1000 (by decide)).2 (Controller.boot 0 1)
    (Machine.Reachable.init ⟨0, 1, rfl⟩) ⟨0, 7⟩ _ (WriteEvt.setTarget_setsTarget ⟨0, 7⟩ 1000)
    (WriteEvt.documentedMm_setTarget 7 1000)).mpr (.inl (by decide))

/-- A height beyond it: a write of 20000 mm at boot position 0 drives the desk down. -/
theorem not_forall_setTarget_right_way :
    ¬∀ m : UInt16, 834000 ≤ 1000 * m.toNat →
      (∀ c, controllerMachine.Reachable c → ∀ (svc : CtrlService) (e : WriteEvt),
        e.SetsTarget svc → e.documentedMm = m →
        MovesRightWay m c.mState.position (bleCtrlServiceOnWrite .shipped svc e c)) ∧
      ∀ a : UInt16, 834000 ≤ 1000 * a.toNat → a ≤ m →
        ∀ (svc : CtrlService) (e₁ e₂ : WriteEvt), e₁.SetsTarget svc → e₁.documentedMm = a →
        e₂.SetsTarget svc → e₂.documentedMm = m → ∀ c₁ c₂ : Controller,
          (bleCtrlServiceOnWrite .shipped svc e₁ c₁).mState.target ≤
            (bleCtrlServiceOnWrite .shipped svc e₂ c₂).mState.target := by
  intro h
  have hright := (h 20000 (by decide)).1 (Controller.boot 0 1)
    (Machine.Reachable.init ⟨0, 1, rfl⟩) ⟨0, 7⟩ _ (WriteEvt.setTarget_setsTarget ⟨0, 7⟩ 20000)
    (WriteEvt.documentedMm_setTarget 7 20000)
  have hup := (hright.1 (by decide)).1
  have hdown : (bleCtrlServiceOnWrite .shipped ⟨0, 7⟩ (.setTarget 7 20000)
      (Controller.boot 0 1)).mState.movement = .down := by decide
  rw [hdown] at hup
  exact absurd hup (by decide)

end Acromegaly
