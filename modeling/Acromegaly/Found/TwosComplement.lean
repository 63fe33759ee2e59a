import Mathlib.Algebra.Order.Ring.Int

/-!
# Fixed-width signed integers without overflow

Lean's `Int16` and `Int32` compute modulo `2 ^ 16` and `2 ^ 32`. The lemmas here say when an
operation agrees with the one on `ℤ`, under a range hypothesis. Narrowing from 32 to 16 bits is
exact on the 16-bit range (`toInt_toInt16_of_mem`). The last section is the little-endian byte
order of a 16-bit value, with its round trip.
-/

namespace Acromegaly.Found

/-! ## Sixteen bits -/

/-- Counting up below another value does not overflow. -/
theorem toInt_add_one_of_lt {x y : Int16} (h : x < y) : (x + 1).toInt = x.toInt + 1 := by
  have hlt := Int16.lt_iff_toInt_lt.mp h
  have hlow := x.le_toInt
  have hhigh := y.toInt_lt
  rw [Int16.toInt_add, Int16.toInt_one]
  exact Int.bmod_eq_of_le (by omega) (by omega)

/-- Counting down above another value does not overflow. -/
theorem toInt_sub_one_of_lt {x y : Int16} (h : y < x) : (x - 1).toInt = x.toInt - 1 := by
  have hlt := Int16.lt_iff_toInt_lt.mp h
  have hlow := y.le_toInt
  have hhigh := x.toInt_lt
  rw [Int16.toInt_sub, Int16.toInt_one]
  exact Int.bmod_eq_of_le (by omega) (by omega)

/-! ## Thirty-two bits -/

/-- The range of `int32_t`. -/
def InInt32 (x : ℤ) : Prop := -2 ^ 31 ≤ x ∧ x < 2 ^ 31

theorem toInt_add_of_mem {a b : Int32} (h : InInt32 (a.toInt + b.toInt)) :
    (a + b).toInt = a.toInt + b.toInt := by
  obtain ⟨h₁, h₂⟩ := h
  rw [Int32.toInt_add]
  exact Int.bmod_eq_of_le (by omega) (by omega)

theorem toInt_sub_of_mem {a b : Int32} (h : InInt32 (a.toInt - b.toInt)) :
    (a - b).toInt = a.toInt - b.toInt := by
  obtain ⟨h₁, h₂⟩ := h
  rw [Int32.toInt_sub]
  exact Int.bmod_eq_of_le (by omega) (by omega)

theorem toInt_mul_of_mem {a b : Int32} (h : InInt32 (a.toInt * b.toInt)) :
    (a * b).toInt = a.toInt * b.toInt := by
  obtain ⟨h₁, h₂⟩ := h
  rw [Int32.toInt_mul]
  exact Int.bmod_eq_of_le (by omega) (by omega)

/-- Division by a positive number cannot overflow. -/
theorem toInt_div_of_pos {a b : Int32} (h : 0 < b.toInt) :
    (a / b).toInt = a.toInt.tdiv b.toInt := by
  refine Int32.toInt_div_of_ne_right a b ?_
  rintro rfl
  exact absurd h (by decide)

/-! ## Narrowing -/

/-- Narrowing to 16 bits is exact on the 16-bit range. -/
theorem toInt_toInt16_of_mem {a : Int32} (h₁ : -2 ^ 15 ≤ a.toInt) (h₂ : a.toInt < 2 ^ 15) :
    a.toInt16.toInt = a.toInt := by
  rw [Int32.toInt_toInt16]
  exact Int.bmod_eq_of_le (by omega) (by omega)

/-! ## Little-endian bytes -/

/-- The 16-bit value whose low and high bytes are given. -/
def int16OfBytes (lo hi : UInt8) : Int16 := (UInt16.ofNat (lo.toNat + 256 * hi.toNat)).toInt16

/-- The low byte of a 16-bit value. -/
def lowByte (x : Int16) : UInt8 := UInt8.ofNat (x.toUInt16.toNat % 256)

/-- The high byte of a 16-bit value. -/
def highByte (x : Int16) : UInt8 := UInt8.ofNat (x.toUInt16.toNat / 256)

theorem toInt_int16OfBytes (lo hi : UInt8) :
    (int16OfBytes lo hi).toInt = (lo.toNat + 256 * hi.toNat : ℤ).bmod (2 ^ 16) := by
  unfold int16OfBytes
  rw [UInt16.toInt16_ofNat', Int16.toInt_ofNat']
  rfl

/-- The bytes of a value are read back as the value. -/
theorem int16OfBytes_bytes (x : Int16) : int16OfBytes (lowByte x) (highByte x) = x := by
  have hlt : x.toUInt16.toNat < 65536 := x.toUInt16.toNat_lt
  have hlo : (lowByte x).toNat = x.toUInt16.toNat % 256 := by
    unfold lowByte
    rw [UInt8.toNat_ofNat']
    omega
  have hhi : (highByte x).toNat = x.toUInt16.toNat / 256 := by
    unfold highByte
    rw [UInt8.toNat_ofNat']
    omega
  have hsum : (lowByte x).toNat + 256 * (highByte x).toNat = x.toUInt16.toNat := by omega
  unfold int16OfBytes
  rw [hsum, UInt16.ofNat_toNat, Int16.toInt16_toUInt16]

/-- Two bytes are the bytes of the value they make. -/
theorem bytes_int16OfBytes (lo hi : UInt8) :
    lowByte (int16OfBytes lo hi) = lo ∧ highByte (int16OfBytes lo hi) = hi := by
  have hlo := lo.toNat_lt
  have hhi := hi.toNat_lt
  have hnat : (int16OfBytes lo hi).toUInt16.toNat = lo.toNat + 256 * hi.toNat := by
    unfold int16OfBytes
    rw [UInt16.toUInt16_toInt16, UInt16.toNat_ofNat']
    exact Nat.mod_eq_of_lt (by omega)
  have hmod : (lo.toNat + 256 * hi.toNat) % 256 = lo.toNat := by omega
  have hdiv : (lo.toNat + 256 * hi.toNat) / 256 = hi.toNat := by omega
  constructor
  · unfold lowByte
    rw [hnat, hmod, UInt8.ofNat_toNat]
  · unfold highByte
    rw [hnat, hdiv, UInt8.ofNat_toNat]

end Acromegaly.Found
