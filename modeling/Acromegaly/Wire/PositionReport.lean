import Acromegaly.Wire.Heights
import Mathlib.Algebra.Order.Ring.Abs

/-!
# The reported position

Bytes 0 and 1 of a notification carry the height of the counted position in mm. The status service
computes it in 32 bits, divides with truncation and narrows to 16 bits. For a geometry whose heights
stay below 32.768 m over the whole range of the counter nothing overflows on the way
(`toInt_umPosition_of_range`, `toInt_mmPosition_of_range`), and the report is less than a millimetre
off and keeps the order of positions (`position_report_faithful`).
-/

namespace Acromegaly

open Found

/-- Bytes 0 and 1 of a notification, as a signed little-endian number. -/
def reportedPosition (data : List UInt8) : Int16 := int16OfBytes (data.getD 0 0) (data.getD 1 0)

theorem reportedPosition_statusValue (g : Geometry) (pos target : Int16) (ty mov : UInt8) :
    reportedPosition (statusValue g pos target ty mov) = mmPosition g pos :=
  int16OfBytes_bytes (mmPosition g pos)

/-- What `status_characteristic_update` hands over reports `mmPosition`. -/
theorem reportedPosition_of_update {g : Geometry} {svc : StatusService} {pos target : Int16}
    {ty mov : UInt8} {hvx : HvxParams}
    (h : statusCharacteristicUpdate g svc pos target ty mov = some hvx) :
    reportedPosition hvx.data = mmPosition g pos := by
  unfold statusCharacteristicUpdate at h
  rw [Option.ite_none_right_eq_some] at h
  obtain ⟨-, ⟨⟩⟩ := h
  exact reportedPosition_statusValue g pos target ty mov

section report

variable {g : Geometry} (hM : 0 ≤ g.tickToHeightMulti.toInt) (hB : 0 ≤ g.baseHeight.toInt)
  (hrange : 32768 * g.tickToHeightMulti.toInt + g.baseHeight.toInt < 32768000)

include hM hB hrange

/-- Over all positions the exact height stays within 32.768 m of the floor, above or below, and so
does its part above the base. -/
theorem abs_height_lt (p : Int16) :
    |p.toInt * g.tickToHeightMulti.toInt| < 32768000 ∧
      |p.toInt * g.tickToHeightMulti.toInt + g.baseHeight.toInt| < 32768000 := by
  have hp : |p.toInt| ≤ 32768 := by
    have hlow := p.le_toInt
    have hhigh := p.toInt_lt
    rw [abs_le]
    constructor
    · omega
    · omega
  have hle : |p.toInt * g.tickToHeightMulti.toInt| ≤ 32768 * g.tickToHeightMulti.toInt := by
    rw [abs_mul, abs_of_nonneg hM]
    exact Int.mul_le_mul_of_nonneg_right hp hM
  obtain ⟨hlow, hhigh⟩ := abs_le.mp hle
  rw [abs_lt, abs_lt]
  refine ⟨⟨?_, ?_⟩, ?_, ?_⟩
  · omega
  · omega
  · omega
  · omega

/-- The product of `umPosition` does not overflow. -/
theorem toInt_product_of_range (p : Int16) :
    (p.toInt32 * g.tickToHeightMulti).toInt = p.toInt * g.tickToHeightMulti.toInt := by
  have hprod := abs_lt.mp (abs_height_lt hM hB hrange p).1
  rw [toInt_mul_of_mem, Int16.toInt_toInt32]
  rw [Int16.toInt_toInt32]
  constructor
  · omega
  · omega

/-- Nor does its sum. -/
theorem toInt_umPosition_of_range (p : Int16) :
    (umPosition g p).toInt = p.toInt * g.tickToHeightMulti.toInt + g.baseHeight.toInt := by
  have hsum := abs_lt.mp (abs_height_lt hM hB hrange p).2
  unfold umPosition
  rw [toInt_add_of_mem, toInt_product_of_range hM hB hrange]
  rw [toInt_product_of_range hM hB hrange]
  constructor
  · omega
  · omega

/-- Nor does the narrowing to `mmPosition`, which is the truncated height. -/
theorem toInt_mmPosition_of_range (p : Int16) :
    (mmPosition g p).toInt =
      (p.toInt * g.tickToHeightMulti.toInt + g.baseHeight.toInt).tdiv 1000 := by
  have hquot := abs_lt.mp (abs_tdiv_lt (b := 1000) (n := 32768) (by decide)
    (abs_height_lt hM hB hrange p).2)
  apply toInt_mmPosition (toInt_umPosition_of_range hM hB hrange p)
  · omega
  · omega

/-- A higher position is reported at least as high. -/
theorem mmPosition_mono {p q : Int16} (h : p ≤ q) : mmPosition g p ≤ mmPosition g q := by
  rw [Int16.le_iff_toInt_le, toInt_mmPosition_of_range hM hB hrange,
    toInt_mmPosition_of_range hM hB hrange]
  apply Int.tdiv_le_tdiv (by decide)
  have hmul := Int.mul_le_mul_of_nonneg_right (Int16.le_iff_toInt_le.mp h) hM
  omega

/-- **The reported position is faithful.** For every geometry in the range and every position: the
product, the sum and the narrowing of `status_characteristic_update` are exact; while connected it
hands over a notification whose height is less than a millimetre away from the exact one; and of two
notifications the one for the higher position reports at least the height of the other. -/
theorem position_report_faithful (p : Int16) :
    ((p.toInt32 * g.tickToHeightMulti).toInt = p.toInt * g.tickToHeightMulti.toInt ∧
      (umPosition g p).toInt = p.toInt * g.tickToHeightMulti.toInt + g.baseHeight.toInt ∧
      (mmPosition g p).toInt = (umPosition g p / 1000).toInt) ∧
    (∀ (svc : StatusService) (target : Int16) (ty mov : UInt8),
      svc.connHandle ≠ bleConnHandleInvalid →
      ∃ hvx, statusCharacteristicUpdate g svc p target ty mov = some hvx ∧
        |1000 * (reportedPosition hvx.data).toInt -
          (p.toInt * g.tickToHeightMulti.toInt + g.baseHeight.toInt)| < 1000) ∧
    (∀ q, p ≤ q → ∀ (svc svc' : StatusService) (target target' : Int16) (ty ty' mov mov' : UInt8)
      (hvx hvx' : HvxParams), statusCharacteristicUpdate g svc p target ty mov = some hvx →
      statusCharacteristicUpdate g svc' q target' ty' mov' = some hvx' →
      reportedPosition hvx.data ≤ reportedPosition hvx'.data) := by
  have hum := toInt_umPosition_of_range hM hB hrange p
  have hmm := toInt_mmPosition_of_range hM hB hrange p
  refine ⟨⟨toInt_product_of_range hM hB hrange p, hum, ?_⟩, ?_, ?_⟩
  · have h1000 : (1000 : Int32).toInt = 1000 := rfl
    rw [hmm, toInt_div_of_pos (by decide), hum, h1000]
  · intro svc target ty mov hconn
    have hsent : statusCharacteristicUpdate g svc p target ty mov =
        some ⟨svc.connHandle, svc.valueHandle, statusValue g p target ty mov⟩ := if_pos hconn
    refine ⟨_, hsent, ?_⟩
    rw [reportedPosition_of_update hsent, hmm]
    exact abs_mul_tdiv_sub_lt (by decide) _
  · intro q hle svc svc' target target' ty ty' mov mov' hvx hvx' hsent hsent'
    rw [reportedPosition_of_update hsent, reportedPosition_of_update hsent']
    exact mmPosition_mono hM hB hrange hle

end report

/-- With the shipped geometry, on both sides of the floor: tick `-1589` lies 225 µm below it and
tick `0` 834 mm above, and they are reported as `0` and as `834`. -/
theorem position_report_faithful_shipped :
    (umPosition .shipped (-1589)).toInt = -225 ∧
      mmPosition .shipped (-1589) = 0 ∧ mmPosition .shipped 0 = 834 ∧
      ∃ hvx, statusCharacteristicUpdate .shipped ⟨0, 5⟩ (-1589) 0 2 0xCB = some hvx ∧
        |1000 * (reportedPosition hvx.data).toInt - (-225)| < 1000 :=
  ⟨by decide, by decide, by decide,
    (position_report_faithful (g := .shipped) (by decide) (by decide) (by decide) (-1589)).2.1
      ⟨0, 5⟩ 0 2 0xCB (by decide)⟩

end Acromegaly
