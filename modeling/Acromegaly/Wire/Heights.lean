import Acromegaly.Found.Rounding
import Acromegaly.Motion.Steps
import Acromegaly.Model.Services

/-!
# Heights on the wire and ticks in the controller

A client names heights in mm; the controller counts ticks. The control service converts with a
rounded division (`targetPosOfMm`), the status service back with a truncating one (`mmTarget`,
`mmPosition`). This file computes both over `ℤ`, with the conditions under which no intermediate
value overflows, and compares them.

`reportedTarget_eq_iff`: a target comes back as it was sent exactly if the division on the way in
did not round down. Half of all heights come back one millimetre short, and the height of tick `0`
comes back as `0`.
-/

namespace Acromegaly

open Found

/-! ## Set-target writes -/

/-- The height bytes of a set-target write, as the code reads them: a signed little-endian
number. -/
def WriteEvt.heightMm (e : WriteEvt) : Int16 := int16OfBytes (e.data 1) (e.data 2)

/-- A complete set-target write on the control characteristic. -/
structure WriteEvt.SetsTarget (e : WriteEvt) (svc : CtrlService) : Prop where
  handle : e.handle = svc.valueHandle
  len : 3 ≤ e.len
  opcode : e.data 0 = ctrlCommandSetTargetPos

/-- A handled write with the set-target opcode, whatever its length, is
`controller_target_position_set` on the computed tick target. -/
theorem bleCtrlServiceOnWrite_setTargetPos {e : WriteEvt} {svc : CtrlService}
    (h : e.handle = svc.valueHandle ∧ e.len > 0) (hcode : e.data 0 = ctrlCommandSetTargetPos)
    (g : Geometry) (c : Controller) :
    bleCtrlServiceOnWrite g svc e c = c.setTargetPos (targetPosOfMm g e.heightMm) .exact := by
  unfold bleCtrlServiceOnWrite
  rw [if_pos h, hcode]
  rfl

theorem bleCtrlServiceOnWrite_setsTarget {e : WriteEvt} {svc : CtrlService} (h : e.SetsTarget svc)
    (g : Geometry) (c : Controller) :
    bleCtrlServiceOnWrite g svc e c = c.setTargetPos (targetPosOfMm g e.heightMm) .exact := by
  have hlen : e.len > 0 := by
    have := UInt16.le_iff_toNat_le.mp h.len
    rw [gt_iff_lt, UInt16.lt_iff_toNat_lt]
    exact lt_of_lt_of_le (by decide) this
  exact bleCtrlServiceOnWrite_setTargetPos ⟨h.handle, hlen⟩ h.opcode g c

/-- `set_target_pos` stores its target, whatever it then does with the motor. -/
@[simp] theorem Controller.setTargetPos_target (c : Controller) (t : Int16) (ty : TargetType) :
    (c.setTargetPos t ty).mState.target = t := by
  rw [setTargetPos_eq, setMovementDir_eq]
  unfold controllerCallCb
  split_ifs <;> rfl

/-- And its type. -/
@[simp] theorem Controller.setTargetPos_targetType (c : Controller) (t : Int16) (ty : TargetType) :
    (c.setTargetPos t ty).mState.targetType = ty := by
  rw [setTargetPos_eq, setMovementDir_eq]
  unfold controllerCallCb
  split_ifs <;> rfl

/-! ## The conversions over the integers -/

/-- `ROUNDED_DIV` of the control service, when neither the difference nor the rounding term
overflows. -/
theorem toInt_roundedDiv_height {g : Geometry} {mm : Int16} (hM : 0 < g.tickToHeightMulti.toInt)
    (h₁ : InInt32 (mm.toInt * 1000 - g.baseHeight.toInt))
    (h₂ : InInt32 (mm.toInt * 1000 - g.baseHeight.toInt + g.tickToHeightMulti.toInt / 2)) :
    (roundedDiv (mm.toInt32 * 1000 - g.baseHeight) g.tickToHeightMulti).toInt =
      (mm.toInt * 1000 - g.baseHeight.toInt + g.tickToHeightMulti.toInt / 2).tdiv
        g.tickToHeightMulti.toInt := by
  have hlow := mm.le_toInt
  have hhigh := mm.toInt_lt
  have h1000 : (1000 : Int32).toInt = 1000 := rfl
  have hum : (mm.toInt32 * 1000).toInt = mm.toInt * 1000 := by
    rw [toInt_mul_of_mem, Int16.toInt_toInt32, h1000]
    rw [Int16.toInt_toInt32, h1000]
    constructor <;> omega
  have hsub : (mm.toInt32 * 1000 - g.baseHeight).toInt = mm.toInt * 1000 - g.baseHeight.toInt := by
    rw [toInt_sub_of_mem, hum]
    rwa [hum]
  have hhalf : (g.tickToHeightMulti / 2).toInt = g.tickToHeightMulti.toInt / 2 := by
    rw [toInt_div_of_pos (by decide)]
    exact Int.tdiv_eq_ediv_of_nonneg hM.le
  unfold roundedDiv
  rw [toInt_div_of_pos hM, toInt_add_of_mem, hsub, hhalf]
  rwa [hsub, hhalf]

/-- Height in µm of a tick, when neither the product nor the sum overflows. -/
theorem toInt_umPosition {g : Geometry} {p : Int16}
    (h₁ : InInt32 (p.toInt * g.tickToHeightMulti.toInt))
    (h₂ : InInt32 (p.toInt * g.tickToHeightMulti.toInt + g.baseHeight.toInt)) :
    (umPosition g p).toInt = p.toInt * g.tickToHeightMulti.toInt + g.baseHeight.toInt := by
  have hmul : (p.toInt32 * g.tickToHeightMulti).toInt =
      p.toInt * g.tickToHeightMulti.toInt := by
    rw [toInt_mul_of_mem, Int16.toInt_toInt32]
    rwa [Int16.toInt_toInt32]
  unfold umPosition
  rw [toInt_add_of_mem, hmul]
  rwa [hmul]

/-- Height in mm of a tick, truncated, when nothing overflows. -/
theorem toInt_mmPosition {g : Geometry} {p : Int16} {um : ℤ} (hum : (umPosition g p).toInt = um)
    (h₁ : -2 ^ 15 ≤ um.tdiv 1000) (h₂ : um.tdiv 1000 < 2 ^ 15) :
    (mmPosition g p).toInt = um.tdiv 1000 := by
  have hdiv : (umPosition g p / 1000).toInt = um.tdiv 1000 := by
    rw [toInt_div_of_pos (by decide), hum]
    rfl
  unfold mmPosition
  rw [toInt_toInt16_of_mem, hdiv] <;> rwa [hdiv]

/-- A positive target is reported like a position. -/
theorem mmTarget_of_pos (g : Geometry) {t : Int16} (h : t > 0) : mmTarget g t = mmPosition g t := by
  unfold mmTarget mmPosition umTarget umPosition
  rw [if_pos h]

/-- Every other target is reported as `0`. -/
theorem mmTarget_of_not_pos (g : Geometry) {t : Int16} (h : ¬t > 0) : mmTarget g t = 0 := by
  unfold mmTarget umTarget
  rw [if_neg h]
  rfl

/-- The target height in a notification: bytes 2 and 3. -/
def reportedTarget (data : List UInt8) : Int16 := int16OfBytes (data.getD 2 0) (data.getD 3 0)

theorem reportedTarget_statusValue (g : Geometry) (pos target : Int16) (ty mov : UInt8) :
    reportedTarget (statusValue g pos target ty mov) = mmTarget g target :=
  int16OfBytes_bytes (mmTarget g target)

/-! ## A target and its report -/

section report

variable {g : Geometry} (hM : 1 ≤ g.tickToHeightMulti.toInt)
  (hM' : g.tickToHeightMulti.toInt ≤ 1000) (hB : 0 ≤ g.baseHeight.toInt) {T : Int16}
  (hT : g.baseHeight.toInt ≤ 1000 * T.toInt)

include hM hM' hB hT

/-- For a height at or above the base height the tick value is the rounded quotient. -/
theorem toInt_roundedDiv_eq_nearest :
    (roundedDiv (T.toInt32 * 1000 - g.baseHeight) g.tickToHeightMulti).toInt =
      nearest (1000 * T.toInt - g.baseHeight.toInt) g.tickToHeightMulti.toInt := by
  have hhigh := T.toInt_lt
  have hcomm : T.toInt * 1000 = 1000 * T.toInt := Int.mul_comm _ _
  rw [toInt_roundedDiv_height (by omega) (by constructor <;> omega) (by constructor <;> omega), hcomm]
  exact tdiv_eq_nearest (by omega)

/-- What comes back for a height whose tick value fits: the height of the tick, truncated, and `0`
for tick `0`. -/
theorem toInt_mmTarget_targetPosOfMm
    (hfit : (roundedDiv (T.toInt32 * 1000 - g.baseHeight) g.tickToHeightMulti).toInt < 2 ^ 15) :
    (mmTarget g (targetPosOfMm g T)).toInt =
      if 0 < nearest (1000 * T.toInt - g.baseHeight.toInt) g.tickToHeightMulti.toInt then
        (g.tickToHeightMulti.toInt *
            nearest (1000 * T.toInt - g.baseHeight.toInt) g.tickToHeightMulti.toInt +
          g.baseHeight.toInt) / 1000
      else 0 := by
  have hhigh := T.toInt_lt
  have hround := toInt_roundedDiv_eq_nearest hM hM' hB hT
  rw [hround] at hfit
  have hle := mul_nearest_le (show 0 < g.tickToHeightMulti.toInt by omega)
    (1000 * T.toInt - g.baseHeight.toInt)
  have hnonneg : 0 ≤ nearest (1000 * T.toInt - g.baseHeight.toInt) g.tickToHeightMulti.toInt :=
    Int.ediv_nonneg (by omega) (by omega)
  have hticks : (targetPosOfMm g T).toInt =
      nearest (1000 * T.toInt - g.baseHeight.toInt) g.tickToHeightMulti.toInt := by
    unfold targetPosOfMm
    rw [toInt_toInt16_of_mem, hround] <;> rw [hround]
    · omega
    · exact hfit
  generalize nearest (1000 * T.toInt - g.baseHeight.toInt) g.tickToHeightMulti.toInt = t at *
  split_ifs with ht
  · have hpos : targetPosOfMm g T > 0 := by
      rw [gt_iff_lt, Int16.lt_iff_toInt_lt, hticks]
      exact ht
    have hmul : 0 ≤ g.tickToHeightMulti.toInt * t := Int.mul_nonneg (by omega) hnonneg
    have hcomm : t * g.tickToHeightMulti.toInt = g.tickToHeightMulti.toInt * t := Int.mul_comm _ _
    have hum : (umPosition g (targetPosOfMm g T)).toInt =
        g.tickToHeightMulti.toInt * t + g.baseHeight.toInt := by
      rw [toInt_umPosition, hticks, hcomm] <;> rw [hticks, hcomm] <;> constructor <;> omega
    have hquot : (g.tickToHeightMulti.toInt * t + g.baseHeight.toInt).tdiv 1000 =
        (g.tickToHeightMulti.toInt * t + g.baseHeight.toInt) / 1000 :=
      Int.tdiv_eq_ediv_of_nonneg (by omega)
    rw [mmTarget_of_pos g hpos, toInt_mmPosition hum, hquot] <;> rw [hquot] <;> omega
  · have hpos : ¬targetPosOfMm g T > 0 := by
      rw [gt_iff_lt, Int16.lt_iff_toInt_lt, hticks]
      exact ht
    rw [mmTarget_of_not_pos g hpos]
    rfl

/-- The report in mm is the height sent exactly if the division on the way in was exact or rounded
up, and the height is not the one of tick `0`. -/
theorem mmTarget_targetPosOfMm_iff
    (hfit : (roundedDiv (T.toInt32 * 1000 - g.baseHeight) g.tickToHeightMulti).toInt < 2 ^ 15) :
    mmTarget g (targetPosOfMm g T) = T ↔
      ((1000 * T.toInt - g.baseHeight.toInt) % g.tickToHeightMulti.toInt = 0 ∧
          (1000 * T.toInt ≠ g.baseHeight.toInt ∨ T.toInt = 0)) ∨
        g.tickToHeightMulti.toInt ≤
          2 * ((1000 * T.toInt - g.baseHeight.toInt) % g.tickToHeightMulti.toInt) := by
  rw [← Int16.toInt_inj, toInt_mmTarget_targetPosOfMm hM hM' hB hT hfit]
  have hpos : 0 < g.tickToHeightMulti.toInt := by omega
  have hsplit := Int.emod_add_mul_ediv (1000 * T.toInt - g.baseHeight.toInt)
    g.tickToHeightMulti.toInt
  have hr₀ := Int.emod_nonneg (1000 * T.toInt - g.baseHeight.toInt) hpos.ne'
  have hr₁ := Int.emod_lt_of_pos (1000 * T.toInt - g.baseHeight.toInt) hpos
  have hq₀ : 0 ≤ (1000 * T.toInt - g.baseHeight.toInt) / g.tickToHeightMulti.toInt :=
    Int.ediv_nonneg (by omega) (by omega)
  by_cases hup : g.tickToHeightMulti.toInt ≤
      2 * ((1000 * T.toInt - g.baseHeight.toInt) % g.tickToHeightMulti.toInt)
  · -- rounded up: the tick lies at or above the height, by less than a millimetre
    rw [nearest_of_up hpos hup, if_pos (by omega), Int.mul_add, Int.mul_one]
    constructor
    · exact fun _ => .inr hup
    · intro _
      omega
  · rw [nearest_of_down hpos (by omega)]
    split_ifs with hq
    · have hmul : 0 < g.tickToHeightMulti.toInt *
          ((1000 * T.toInt - g.baseHeight.toInt) / g.tickToHeightMulti.toInt) := Int.mul_pos hpos hq
      constructor
      · intro heq
        exact .inl ⟨by omega, .inl (by omega)⟩
      · rintro (⟨hr, -⟩ | h)
        · omega
        · exact absurd h hup
    · have hzero : (1000 * T.toInt - g.baseHeight.toInt) / g.tickToHeightMulti.toInt = 0 := by omega
      rw [hzero, Int.mul_zero] at hsplit
      constructor
      · intro heq
        exact .inl ⟨by omega, .inr heq.symm⟩
      · rintro (⟨hr, h | h⟩ | h)
        · omega
        · omega
        · exact absurd h hup

/-- **What a target comes back as.** For every geometry with a tick of at most a millimetre and
every height at or above the base height whose tick value fits `int16_t`: after the set-target
write, the notification built from the stored target carries the height sent in bytes 2 and 3
exactly if the remainder of the height above the base modulo the tick is `0` or at least half a
tick, and the height is not the base height itself (unless both are `0`). -/
theorem reportedTarget_eq_iff
    (hfit : (roundedDiv (T.toInt32 * 1000 - g.baseHeight) g.tickToHeightMulti).toInt < 2 ^ 15)
    {svc : CtrlService} {e : WriteEvt} (he : e.SetsTarget svc) (hmm : e.heightMm = T)
    (c : Controller) {st : StatusService} (hconn : st.connHandle ≠ bleConnHandleInvalid)
    (pos : Int16) (ty mov : UInt8) :
    (∃ hvx, statusCharacteristicUpdate g st pos (bleCtrlServiceOnWrite g svc e c).mState.target ty
        mov = some hvx ∧ reportedTarget hvx.data = T) ↔
      ((1000 * T.toInt - g.baseHeight.toInt) % g.tickToHeightMulti.toInt = 0 ∧
          (1000 * T.toInt ≠ g.baseHeight.toInt ∨ T.toInt = 0)) ∨
        g.tickToHeightMulti.toInt ≤
          2 * ((1000 * T.toInt - g.baseHeight.toInt) % g.tickToHeightMulti.toInt) := by
  rw [← mmTarget_targetPosOfMm_iff hM hM' hB hT hfit, bleCtrlServiceOnWrite_setsTarget he,
    Controller.setTargetPos_target, hmm]
  unfold statusCharacteristicUpdate
  rw [if_pos hconn]
  constructor
  · rintro ⟨_, ⟨⟩, h⟩
    rwa [reportedTarget_statusValue] at h
  · intro h
    exact ⟨_, rfl, by rwa [reportedTarget_statusValue]⟩

end report

/-- A height that comes back as it was sent: 835 mm. -/
theorem reportedTarget_eq_iff_835 :
    ∃ hvx, statusCharacteristicUpdate .shipped ⟨0, 5⟩ 0
        (bleCtrlServiceOnWrite .shipped ⟨0, 7⟩ (.ofBytes 7 [0x60, 0x43, 0x03])
          (Controller.boot 0 1)).mState.target 2 0xCB = some hvx ∧ reportedTarget hvx.data = 835 :=
  (reportedTarget_eq_iff (g := .shipped) (T := 835) (by decide) (by decide) (by decide) (by decide)
    (by decide) ⟨rfl, by decide, rfl⟩ rfl (Controller.boot 0 1) (by decide) 0 2 0xCB).mpr (by decide)

/-- A height that does not: 840 mm is stored as tick 11, which is reported as 839 mm. -/
theorem not_forall_reportedTarget_eq :
    ¬∀ (g : Geometry) (T : Int16), 1 ≤ g.tickToHeightMulti.toInt →
      g.tickToHeightMulti.toInt ≤ 1000 → 0 ≤ g.baseHeight.toInt →
      g.baseHeight.toInt ≤ 1000 * T.toInt →
      -2 ^ 15 ≤ (roundedDiv (T.toInt32 * 1000 - g.baseHeight) g.tickToHeightMulti).toInt →
      (roundedDiv (T.toInt32 * 1000 - g.baseHeight) g.tickToHeightMulti).toInt < 2 ^ 15 →
      ∀ (svc : CtrlService) (e : WriteEvt), e.SetsTarget svc → e.heightMm = T →
      ∀ (c : Controller) (st : StatusService), st.connHandle ≠ bleConnHandleInvalid →
      ∀ (pos : Int16) (ty mov : UInt8),
        ∃ hvx, statusCharacteristicUpdate g st pos
            (bleCtrlServiceOnWrite g svc e c).mState.target ty mov = some hvx ∧
          reportedTarget hvx.data = T := by
  intro h
  obtain ⟨hvx, hsome, heq⟩ := h .shipped 840 (by decide) (by decide) (by decide) (by decide)
    (by decide) (by decide) ⟨0, 7⟩ (.ofBytes 7 [0x60, 0x48, 0x03]) ⟨rfl, by decide, rfl⟩ rfl
    (Controller.boot 0 1) ⟨0, 5⟩ (by decide) 0 2 0xCB
  have h839 : (statusCharacteristicUpdate .shipped ⟨0, 5⟩ 0
      (bleCtrlServiceOnWrite .shipped ⟨0, 7⟩ (.ofBytes 7 [0x60, 0x48, 0x03])
        (Controller.boot 0 1)).mState.target 2 0xCB).map (reportedTarget ·.data) = some 839 := by
    decide
  rw [hsome, Option.map_some, heq] at h839
  exact absurd h839 (by decide)

end Acromegaly
