import Mathlib.Data.Int.Notation

/-!
# The configuration header and the SDK's rounded division

`config/acromegaly_config.h` holds the two numbers that tie the tick counter to a height and the
limits of the tick counter. The geometry is a value (`Geometry`), so that results can range over
every desk a user may configure; `Geometry.shipped` is the one in the repository. All arithmetic
is C `int` arithmetic on a 32-bit target, hence `Int32`, whose division truncates towards zero as
C's does.
-/

namespace Acromegaly

/-- The two geometric macros of the configuration header.
Source: `config/acromegaly_config.h` -/
structure Geometry where
  /-- `TICK_TO_HEIGHT_MULTI`: height of one tick, in µm. -/
  tickToHeightMulti : Int32
  /-- `BASE_HEIGHT`: height of the countertop at tick `0`, in µm. -/
  baseHeight : Int32

/-- The geometry the repository ships.
Source: `config/acromegaly_config.h` -/
def Geometry.shipped : Geometry where
  tickToHeightMulti := 525
  baseHeight := 834000

/-- `TICKS_UPPER_LIMIT`. Source: `config/acromegaly_config.h` -/
def ticksUpperLimit : Int16 := 816

/-- `TICK_LOWER_LIMIT`. Source: `config/acromegaly_config.h` -/
def tickLowerLimit : Int16 := 0

/-- The SDK macro `ROUNDED_DIV(A, B)`, `(((A) + ((B) / 2)) / (B))`. -/
def roundedDiv (a b : Int32) : Int32 := (a + b / 2) / b

end Acromegaly
