import Elementary.BigFloat.Basic
import Elementary.Decimal.Basic

/-!
# Decimal text of numbers of arbitrary precision

A number of arbitrary precision is written with a given number of significant digits, without the
zeros at the end. Exponents between `min (-(n / 3)) (-5)` and `n`, both excluded, are written
positionally; a fraction part of at least one digit is always shown.

## Main definitions

* `BigFloat.text`: the text at a given number of digits.
* `workingBits`, `shownDigits`: the correspondence of decimal digits and bits.
-/

namespace Elementary

/-- The number of bits of a working precision of `digits` decimal digits: the nearest integer to
`(digits + 1)` times the binary logarithm of ten, at least one. -/
def workingBits (digits : Int) : Nat :=
  (max 1 (roundHalfEven ((digits + 1 : Int) * (mkRat 33219280948873626 10000000000000000)))).toNat

/-- The decimal digits shown for a working precision given in bits. -/
def shownDigits (bits : Nat) : Nat :=
  (max 1 (roundHalfEven ((bits : Rat) / mkRat 33219280948873626 10000000000000000) - 1)).toNat

namespace BigFloat

/-- The text of a positive number with `digits` significant digits. -/
def positiveText (digits : Nat) (q : Rat) : String :=
  let d := (Decimal.ofRat digits q).stripZeros
  let lowest := min (-((digits / 3 : Nat) : Int)) (-5)
  if lowest < d.exponent && d.exponent < (digits : Int) then d.renderPositional
  else d.renderScientific true 1

/-- The **text** of a number with `digits` significant digits. -/
def text (digits : Nat) : BigFloat → String
  | finite x =>
    let q := x.toRat
    if q = 0 then "0.0"
    else if q < 0 then "-" ++ positiveText digits (-q)
    else positiveText digits q
  | infinite negative => if negative then "-inf" else "inf"
  | nan => "nan"

end BigFloat

end Elementary
