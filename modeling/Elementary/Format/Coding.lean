import Elementary.Format.Rounding

/-!
# Codings

The coding of a number in a format is the integer whose binary digits are, from the top, the sign,
the biased exponent and the fraction. Encoding rounds first; decoding gives back the exact number,
and refuses the codings of the infinities and of the codings that are no number.

## Main definitions

* `Format.encode?`: the coding of the nearest number, unless that overflows.
* `Format.decode?`: the exact number of a coding, unless that is special.
-/

namespace Elementary.Format

/-- The three fields of a coding side by side: each is shifted to its place, and their bits are
joined. -/
def assemble (fmt : Format) (negative : Bool) (exponentField : Nat) (fraction : Nat) : Nat :=
  let sign : Nat := if negative then 1 else 0
  fraction ||| exponentField <<< fmt.fieldSize
    ||| sign <<< (fmt.fieldSize + fmt.exponentSize : Nat)

/-- The coding of a nonnegative number that already is a number of the format. -/
def encodeMagnitude (fmt : Format) (negative : Bool) (q : Rat) : Nat :=
  if q = 0 then fmt.assemble negative 0 0
  else
    let e := floorLog2 q
    if e < fmt.minNormalExponent then
      fmt.assemble negative 0 (q / pow2 fmt.minSubnormalExponent).num.toNat
    else
      let significand := (q / pow2 (e - fmt.fieldSize)).num.toNat
      fmt.assemble negative (e - fmt.bias).toNat (significand - Nat.pow 2 fmt.fieldSize)

/-- The **coding of the nearest number** of the format, or `none` when that number is beyond the
largest finite one. Zero has one coding, the positive one. -/
def encode? (fmt : Format) (q : Rat) : Option Nat :=
  let rounded := fmt.round q
  if fmt.maxValue < rounded.abs then none
  else some (fmt.encodeMagnitude (decide (rounded < 0)) rounded.abs)

/-- The sign field of a coding: everything above the exponent field. -/
def signField (fmt : Format) (coding : Int) : Int :=
  coding / Nat.pow 2 (fmt.exponentSize + fmt.fieldSize)

/-- The biased exponent of a coding. -/
def exponentField (fmt : Format) (coding : Int) : Nat :=
  (coding / Nat.pow 2 fmt.fieldSize % Nat.pow 2 fmt.exponentSize).toNat

/-- The fraction field of a coding. -/
def fractionField (fmt : Format) (coding : Int) : Nat :=
  (coding % Nat.pow 2 fmt.fieldSize).toNat

/-- The magnitude that an exponent field and a fraction field denote. -/
def magnitude (fmt : Format) (exponentField fraction : Nat) : Rat :=
  if exponentField = 0 then (fraction : Rat) * pow2 fmt.minSubnormalExponent
  else
    ((Nat.pow 2 fmt.fieldSize + fraction : Nat) : Rat)
      * pow2 ((exponentField : Int) + fmt.bias - fmt.fieldSize)

/-- The **exact number of a coding**, or `none` when the exponent field is the special one. -/
def decode? (fmt : Format) (coding : Int) : Option Rat :=
  let e := fmt.exponentField coding
  if e = fmt.specialExponent then none
  else
    let m := fmt.magnitude e (fmt.fractionField coding)
    some (if fmt.signField coding ≠ 0 then -m else m)

end Elementary.Format
