import Elementary.Format.Basic
import Elementary.Number.Rounding

/-!
# Rounding to a format

Rounding takes an exact number to the nearest number of a format, subnormal numbers included. The
exponent range is open above: whether the rounded number still is finite in the format is a
question of its own, answered by comparing it with the largest finite number.

## Main definitions

* `Format.quantumExponent`: the exponent of the unit to which a number is rounded.
* `Format.round`: the nearest number of the format, a half going to the even significand.
* `Format.maxValue`: the largest finite number.
-/

namespace Elementary.Format

/-- The exponent of the **quantum** of a positive number: the unit in the last place of its binade,
or of the smallest normal binade when the number lies below that. -/
def quantumExponent (fmt : Format) (q : Rat) : Int :=
  max (floorLog2 q) fmt.minNormalExponent - fmt.fieldSize

/-- The nearest multiple of the quantum to a positive number. -/
def roundPositive (fmt : Format) (q : Rat) : Rat :=
  let quantum := pow2 (fmt.quantumExponent q)
  (roundHalfEven (q / quantum) : Rat) * quantum

/-- The **nearest number of the format**, a half going to the even significand; the exponent is not
bounded above. -/
def round (fmt : Format) (q : Rat) : Rat :=
  if q = 0 then 0
  else if q < 0 then -fmt.roundPositive (-q)
  else fmt.roundPositive q

/-- The largest finite number of the format. -/
def maxValue (fmt : Format) : Rat :=
  pow2 fmt.maxExponent * (2 - pow2 (-(fmt.fieldSize : Int)))

end Elementary.Format
